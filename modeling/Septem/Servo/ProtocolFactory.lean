import Std.Data.ExtTreeMap
import Septem.Library.Run
import Septem.Servo.NetBuffer

/-!
# ProtocolFactory — the deserializer registry of `Servo/Protocol/ProtocolFactory.cpp`

`FProtocolFactory` keeps one delegate for each uid and dispatches received heads to them.  A
`Registry` is a factory in use, with a record of the registrations made.  `StepRight` says what
one call owes its caller by that record; the factory pays it in every step but one
(`StepCondition`): `CallProtocolDeserializeWithoutCheck` looks the uid up with `operator[]`, which
inserts an empty delegate for a uid that is not registered.
-/

namespace Septem

open Cxx

/-- The arguments of a dispatch; for the out parameter, what the variable holds before. -/
structure DeserializeArgs where
  inHead : FSNetBufferHead
  buffer : Bytes
  bufferSize : Int32
  recivedBytesRead : Int32
  deriving DecidableEq, Repr

/-- The key a head is looked up under: its `uid` as an `int32`. -/
def DeserializeArgs.uid (args : DeserializeArgs) : Int32 :=
  Int32.ofNat args.inHead.uid.toNat

variable {δ : Type}

/-- What a dispatch does: it invokes a delegate, prints a message, or throws. -/
inductive DispatchOutcome (δ : Type)
  | invoked (delegate : δ) (args : DeserializeArgs)
  | printed (message : String)
  | badFunctionCall
  deriving DecidableEq, Repr

/-- `std::function::operator()`; `none` is a function that holds nothing. -/
def invoke (f : Option δ) (args : DeserializeArgs) : DispatchOutcome δ :=
  match f with
  | some delegate => .invoked delegate args
  | none => .badFunctionCall

/-- `δ` stands for what a `std::function` can hold. -/
structure FProtocolFactory (δ : Type) where
  protocolDeserializeDelegates : Std.ExtTreeMap Int32 (Option δ) := ∅

namespace FProtocolFactory

/-- `RegisterProtocolDeserialize(InUid, InLambda)`: `std::map::insert` keeps an entry that is
there. -/
def registerProtocolDeserialize (this : FProtocolFactory δ) (inUid : Int32)
    (inLambda : Option δ) : Bool × FProtocolFactory δ :=
  if inUid ∈ this.protocolDeserializeDelegates then
    (false, this)
  else
    (true, { protocolDeserializeDelegates :=
      this.protocolDeserializeDelegates.insert inUid inLambda })

def isProtocolRegister (this : FProtocolFactory δ) (inUid : Int32) : Bool :=
  this.protocolDeserializeDelegates.contains inUid

def notFoundMessage (uid : UInt16) : String :=
  "FProtocolFactory: cannot find packet class with uid = " ++ toString uid.toNat ++
    ", please register it in FProtocolFactory first. \n"

def callProtocolDeserialize (this : FProtocolFactory δ) (args : DeserializeArgs) :
    DispatchOutcome δ × FProtocolFactory δ :=
  match this.protocolDeserializeDelegates[args.uid]? with
  | none => (.printed (notFoundMessage args.inHead.uid), this)
  | some f => (invoke f args, this)

def callProtocolDeserializeWithoutCheck (this : FProtocolFactory δ) (args : DeserializeArgs) :
    DispatchOutcome δ × FProtocolFactory δ :=
  match this.protocolDeserializeDelegates[args.uid]? with
  | some f => (invoke f args, this)
  | none =>
      -- `operator[]` has inserted an empty `std::function` before it is called.
      (invoke none args, { protocolDeserializeDelegates :=
        this.protocolDeserializeDelegates.insert args.uid none })

end FProtocolFactory

/-! ## Runs -/

inductive RegistryOp (δ : Type)
  | registerProtocolDeserialize (inUid : Int32) (inLambda : Option δ)
  | isProtocolRegister (inUid : Int32)
  | callProtocolDeserialize (args : DeserializeArgs)
  | callProtocolDeserializeWithoutCheck (args : DeserializeArgs)

/-- A factory in use. -/
structure Registry (δ : Type) where
  factory : FProtocolFactory δ := {}
  /-- the registrations made, in order -/
  registrations : List (Int32 × Option δ) := []

namespace Registry

/-- The delegate of the first registration of a uid. -/
def first? (s : Registry δ) (uid : Int32) : Option (Option δ) :=
  (s.registrations.find? fun registration => registration.1 = uid).map Prod.snd

/-- A call that throws has its effect all the same, and the run goes on. -/
def step (s : Registry δ) : RegistryOp δ → Checked (Registry δ)
  | .registerProtocolDeserialize uid f =>
      let (_, factory) := s.factory.registerProtocolDeserialize uid f
      pure { factory, registrations := s.registrations ++ [(uid, f)] }
  | .isProtocolRegister _ => pure s
  | .callProtocolDeserialize args =>
      let (_, factory) := s.factory.callProtocolDeserialize args
      pure { s with factory }
  | .callProtocolDeserializeWithoutCheck args =>
      let (_, factory) := s.factory.callProtocolDeserializeWithoutCheck args
      pure { s with factory }

/-- A dispatch invokes the delegate registered first, or none if there is none, and leaves the
registry alone. -/
def DispatchRight (s : Registry δ) (args : DeserializeArgs)
    (result : DispatchOutcome δ × FProtocolFactory δ) : Prop :=
  (∀ f, s.first? args.uid = some f → result.1 = invoke f args) ∧
  (s.first? args.uid = none → ∀ delegate args', result.1 ≠ .invoked delegate args') ∧
  result.2 = s.factory

/-- What a call owes its caller, by the registrations made before it. -/
def StepRight (s : Registry δ) : RegistryOp δ → Prop
  | .registerProtocolDeserialize uid f =>
      ((s.factory.registerProtocolDeserialize uid f).1 = true ↔ s.first? uid = none) ∧
      (s.first? uid ≠ none → (s.factory.registerProtocolDeserialize uid f).2 = s.factory)
  | .isProtocolRegister uid =>
      s.factory.isProtocolRegister uid = true ↔ ∃ f, (uid, f) ∈ s.registrations
  | .callProtocolDeserialize args =>
      s.DispatchRight args (s.factory.callProtocolDeserialize args)
  | .callProtocolDeserializeWithoutCheck args =>
      s.DispatchRight args (s.factory.callProtocolDeserializeWithoutCheck args)

/-- The unchecked dispatch is for registered uids only. -/
def StepCondition (s : Registry δ) : RegistryOp δ → Prop
  | .callProtocolDeserializeWithoutCheck args => s.first? args.uid ≠ none
  | _ => True

/-- The map holds the first registration of every uid, and nothing else. -/
def Faithful (s : Registry δ) : Prop :=
  ∀ uid, s.factory.protocolDeserializeDelegates[uid]? = s.first? uid

/-! ## The record -/

theorem first?_eq_none_iff (s : Registry δ) (uid : Int32) :
    s.first? uid = none ↔ ¬ ∃ f, (uid, f) ∈ s.registrations := by
  rw [first?, Option.map_eq_none_iff, List.find?_eq_none]
  constructor
  · rintro hnone ⟨f, hf⟩
    exact hnone (uid, f) hf (by simp)
  · intro hnone registration hmem heq
    obtain ⟨uid', f⟩ := registration
    have huid : uid' = uid := by simpa using heq
    exact hnone ⟨f, huid ▸ hmem⟩

/-- One more registration counts only for a uid that had none. -/
theorem first?_append (s : Registry δ) (factory : FProtocolFactory δ) (uid : Int32)
    (f : Option δ) (other : Int32) :
    ({ factory, registrations := s.registrations ++ [(uid, f)] } : Registry δ).first? other =
      (s.first? other).or (if uid = other then some f else none) := by
  simp only [first?, List.find?_append]
  cases s.registrations.find? fun registration => registration.1 = other with
  | some registration => rfl
  | none =>
      by_cases huid : uid = other
      · simp [huid]
      · simp [huid]

/-! ## Steps -/

section Steps

variable {s : Registry δ}

theorem new_faithful : ({} : Registry δ).Faithful := fun _ => Std.ExtTreeMap.getElem?_empty

theorem Faithful.mem_iff (h : s.Faithful) (uid : Int32) :
    uid ∈ s.factory.protocolDeserializeDelegates ↔ s.first? uid ≠ none := by
  rw [← h uid, Std.ExtTreeMap.mem_iff_isSome_getElem?, Option.isSome_iff_ne_none]

theorem Faithful.not_mem_iff (h : s.Faithful) (uid : Int32) :
    uid ∉ s.factory.protocolDeserializeDelegates ↔ s.first? uid = none := by
  rw [h.mem_iff, not_not]

theorem register_faithful (h : s.Faithful) (uid : Int32) (f : Option δ) :
    ({ factory := (s.factory.registerProtocolDeserialize uid f).2
       registrations := s.registrations ++ [(uid, f)] } : Registry δ).Faithful := by
  intro other
  rw [first?_append]
  by_cases hmem : uid ∈ s.factory.protocolDeserializeDelegates
  · rw [FProtocolFactory.registerProtocolDeserialize, if_pos hmem, h other]
    by_cases huid : uid = other
    · -- A uid that has a delegate keeps it.
      subst huid
      rcases Option.ne_none_iff_exists'.1 ((h.mem_iff uid).1 hmem) with ⟨g, hg⟩
      rw [hg, Option.some_or]
    · rw [if_neg huid, Option.or_none]
  · have hfirst := (h.not_mem_iff uid).1 hmem
    rw [FProtocolFactory.registerProtocolDeserialize, if_neg hmem]
    simp only [Std.ExtTreeMap.getElem?_insert, Std.LawfulEqCmp.compare_eq_iff_eq]
    by_cases huid : uid = other
    · subst huid
      rw [if_pos rfl, if_pos rfl, hfirst, Option.none_or]
    · rw [if_neg huid, if_neg huid, Option.or_none]
      exact h other

theorem registerRight (h : s.Faithful) (uid : Int32) (f : Option δ) :
    s.StepRight (.registerProtocolDeserialize uid f) := by
  by_cases hmem : uid ∈ s.factory.protocolDeserializeDelegates
  · have hret : s.factory.registerProtocolDeserialize uid f = (false, s.factory) := if_pos hmem
    rw [StepRight, hret]
    exact ⟨iff_of_false nofun ((h.mem_iff uid).1 hmem), fun _ => rfl⟩
  · have hfirst := (h.not_mem_iff uid).1 hmem
    have hret : (s.factory.registerProtocolDeserialize uid f).1 = true := by
      rw [FProtocolFactory.registerProtocolDeserialize, if_neg hmem]
    exact ⟨iff_of_true hret hfirst, fun hne => absurd hfirst hne⟩

theorem isRegisterRight (h : s.Faithful) (uid : Int32) :
    s.StepRight (.isProtocolRegister uid) := by
  rw [StepRight, FProtocolFactory.isProtocolRegister, Std.ExtTreeMap.contains_iff_mem,
    h.mem_iff, Ne, first?_eq_none_iff, not_not]

/-- The checked dispatch and, for a registered uid, the unchecked one do what they owe. -/
theorem callRight (h : s.Faithful) (args : DeserializeArgs) :
    s.StepRight (.callProtocolDeserialize args) := by
  have hget := h args.uid
  cases hfirst : s.first? args.uid with
  | none =>
      rw [hfirst] at hget
      simp only [StepRight, DispatchRight, FProtocolFactory.callProtocolDeserialize, hget, hfirst]
      exact ⟨nofun, fun _ => nofun, trivial⟩
  | some f =>
      rw [hfirst] at hget
      simp only [StepRight, DispatchRight, FProtocolFactory.callProtocolDeserialize, hget, hfirst]
      refine ⟨?_, nofun, trivial⟩
      intro g hg
      rw [Option.some.inj hg]

theorem callWithoutCheckRight_iff (h : s.Faithful) (args : DeserializeArgs) :
    s.StepRight (.callProtocolDeserializeWithoutCheck args) ↔ s.first? args.uid ≠ none := by
  have hget := h args.uid
  cases hfirst : s.first? args.uid with
  | none =>
      rw [hfirst] at hget
      refine iff_of_false ?_ (fun hne => hne rfl)
      rintro ⟨-, -, hsame⟩
      -- The map has an entry it did not have.
      have hentry : (s.factory.callProtocolDeserializeWithoutCheck
          args).2.protocolDeserializeDelegates[args.uid]? = some none := by
        simp [FProtocolFactory.callProtocolDeserializeWithoutCheck, hget]
      rw [hsame, hget] at hentry
      cases hentry
  | some f =>
      rw [hfirst] at hget
      refine iff_of_true ?_ nofun
      simp only [StepRight, DispatchRight,
        FProtocolFactory.callProtocolDeserializeWithoutCheck, hget, hfirst]
      refine ⟨?_, nofun, trivial⟩
      intro g hg
      rw [Option.some.inj hg]

theorem stepRight_iff (h : s.Faithful) (op : RegistryOp δ) :
    s.StepRight op ↔ s.StepCondition op := by
  cases op with
  | registerProtocolDeserialize uid f => exact iff_of_true (registerRight h uid f) trivial
  | isProtocolRegister uid => exact iff_of_true (isRegisterRight h uid) trivial
  | callProtocolDeserialize args => exact iff_of_true (callRight h args) trivial
  | callProtocolDeserializeWithoutCheck args => exact callWithoutCheckRight_iff h args

/-- A dispatch that is right leaves a faithful registry faithful. -/
theorem dispatch_faithful (h : s.Faithful) {args : DeserializeArgs}
    {result : DispatchOutcome δ × FProtocolFactory δ} (hright : s.DispatchRight args result) :
    ({ s with factory := result.2 } : Registry δ).Faithful := by
  rw [hright.2.2]
  exact h

theorem step_faithful {op : RegistryOp δ} (h : s.Faithful) (hop : s.StepCondition op) :
    ∃ s', step s op = .ok s' ∧ s'.Faithful := by
  cases op with
  | registerProtocolDeserialize uid f => exact ⟨_, rfl, register_faithful h uid f⟩
  | isProtocolRegister uid => exact ⟨s, rfl, h⟩
  | callProtocolDeserialize args => exact ⟨_, rfl, dispatch_faithful h (callRight h args)⟩
  | callProtocolDeserializeWithoutCheck args =>
      exact ⟨_, rfl, dispatch_faithful h ((callWithoutCheckRight_iff h args).2 hop)⟩

end Steps

/-- The steps of a run from a new factory are all right exactly when the unchecked dispatch is
called for registered uids only, and then the map holds just the first registrations. -/
theorem registry_faithful_iff (ops : List (RegistryOp δ)) :
    (Along step StepRight {} ops ↔ Along step StepCondition {} ops) ∧
    (Along step StepCondition {} ops → ∃ s' : Registry δ, run step {} ops = .ok s' ∧
      ∀ uid, s'.factory.protocolDeserializeDelegates[uid]? = s'.first? uid) := by
  constructor
  · have hiff (t : Registry δ) (op : RegistryOp δ) (ht : t.Faithful) :
        StepRight t op ↔ StepCondition t op := stepRight_iff ht op
    exact along_iff_of_step hiff (fun _ _ => step_faithful) new_faithful ops
  · intro hcond
    exact run_keeps (fun _ _ => step_faithful) new_faithful hcond

/-- A frame of a uid nobody has registered. -/
def unknownUid : DeserializeArgs :=
  { inHead := { uid := 5 }, buffer := [], bufferSize := 0, recivedBytesRead := 0 }

/-- The unchecked dispatch of an unknown uid throws; afterwards the uid counts as registered, and
registering a delegate for it is refused. -/
theorem withoutCheck_registers :
    ∃ s : Registry Nat, run step {} [.callProtocolDeserializeWithoutCheck unknownUid] = .ok s ∧
      s.registrations = [] ∧
      (({} : FProtocolFactory Nat).callProtocolDeserializeWithoutCheck unknownUid).1 =
        .badFunctionCall ∧
      s.factory.isProtocolRegister 5 = true ∧
      (s.factory.registerProtocolDeserialize 5 (some 0)).1 = false ∧
      ¬ Along step StepRight ({} : Registry Nat)
        [.callProtocolDeserializeWithoutCheck unknownUid] := by
  have huid : unknownUid.uid = 5 := rfl
  have hcall : ({} : FProtocolFactory Nat).callProtocolDeserializeWithoutCheck unknownUid =
      (.badFunctionCall, { protocolDeserializeDelegates :=
        (∅ : Std.ExtTreeMap Int32 (Option Nat)).insert 5 none }) := by
    simp [FProtocolFactory.callProtocolDeserializeWithoutCheck, huid, invoke]
  have hmem : (5 : Int32) ∈ (∅ : Std.ExtTreeMap Int32 (Option Nat)).insert 5 none :=
    Std.ExtTreeMap.mem_insert_self
  have hrun : run step ({} : Registry Nat) [.callProtocolDeserializeWithoutCheck unknownUid] =
      .ok { factory := { protocolDeserializeDelegates :=
        (∅ : Std.ExtTreeMap Int32 (Option Nat)).insert 5 none } } := by
    simp only [run, step, hcall, Checked.pure_eq_ok, Checked.ok_bind]
  refine ⟨_, hrun, rfl, by rw [hcall], Std.ExtTreeMap.contains_iff_mem.2 hmem, ?_, ?_⟩
  · rw [FProtocolFactory.registerProtocolDeserialize, if_pos hmem]
  · rintro ⟨hright, -⟩
    exact (callWithoutCheckRight_iff new_faithful unknownUid).1 hright rfl

end Registry

end Septem

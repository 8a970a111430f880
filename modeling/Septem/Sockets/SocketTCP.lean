import Septem.Library.Run

/-!
# SocketTCP — `CSocketTCP` of `cppsockets/SocketTCP.cpp`

The members of a TCP socket object and the code of its functions.  What a system call answers is an
argument of the step it is made in.  `recv` and `send` repeat the same loop around a system call
that may transfer less than it was asked to; `transferRound` is one round of it.

`descriptors_iff` is about the life of one object: it neither loses an open descriptor nor uses a
closed one, exactly as long as `Open` is not called on a socket that is open.
-/

namespace Septem

open Cxx

/-! ## The members -/

structure SockaddrIn where
  sinAddr : UInt32 := 0
  sinPort : UInt16 := 0
  deriving DecidableEq, Repr

structure CAddressIPv4 where
  addr : SockaddrIn := {}
  valid : Bool := false
  deriving DecidableEq, Repr

/-- `INVALID_SOCKET` and `SOCKET_ERROR`, which are the same number. -/
def invalidSocket : Int := -1

structure CSocketTCP where
  source : CAddressIPv4 := {}
  dest : CAddressIPv4 := {}
  socket : Int := invalidSocket
  valid : Bool := false
  deriving DecidableEq, Repr

namespace CSocketTCP

/-- `CSocketTCP(dest)`. -/
def new (dest : CAddressIPv4) : CSocketTCP :=
  { dest }

/-- `Valid()`. -/
def isValid (this : CSocketTCP) : Bool :=
  this.source.valid && this.dest.valid && this.socket != invalidSocket && this.valid

/-- `Close()`, and the descriptor it hands to `::close`; the condition `if (INVALID_SOCKET)` around
its body tests a constant that is not zero. -/
def close (this : CSocketTCP) : CSocketTCP × Int :=
  ({ this with socket := invalidSocket, valid := false }, this.socket)

/-- What the system calls of `Open` answer. -/
structure OpenAnswers where
  socket : Int
  connect : Int := 0
  getsockname : Int := 0
  addr : SockaddrIn := {}
  /-- `len == sizeof(addr)` behind `getsockname` -/
  lenRight : Bool := true
  deriving DecidableEq, Repr

/-- `Open()`, and the descriptor it hands to `::close` if it does. -/
def openSocket (this : CSocketTCP) (answers : OpenAnswers) : CSocketTCP × Option Int :=
  if this.dest.valid then
    let this := { this with socket := answers.socket }
    if this.socket = invalidSocket then
      (this, none)
    else if answers.connect = invalidSocket then
      let (this, closed) := this.close
      (this, some closed)
    else if answers.getsockname = invalidSocket ∨ answers.lenRight = false then
      let (this, closed) := this.close
      (this, some closed)
    else
      ({ this with source := { addr := answers.addr, valid := true }, valid := true }, none)
  else
    (this, none)

/-- The outcomes of an `Open` that tries. -/
theorem openSocket_cases (this : CSocketTCP) (answers : OpenAnswers)
    (hdest : this.dest.valid = true) :
    (answers.socket = invalidSocket ∧
      this.openSocket answers = ({ this with socket := invalidSocket }, none)) ∨
    (answers.socket ≠ invalidSocket ∧ this.openSocket answers =
      ({ this with socket := invalidSocket, valid := false }, some answers.socket)) ∨
    (answers.socket ≠ invalidSocket ∧ this.openSocket answers = ({ this with
      socket := answers.socket
      source := { addr := answers.addr, valid := true }
      valid := true }, none)) := by
  by_cases hsocket : answers.socket = invalidSocket
  · left
    refine ⟨hsocket, ?_⟩
    rw [openSocket, if_pos hdest]
    simp only [hsocket, if_true]
  · right
    by_cases hconnect : answers.connect = invalidSocket
    · left
      refine ⟨hsocket, ?_⟩
      rw [openSocket, if_pos hdest]
      simp only [if_neg hsocket, if_pos hconnect, close]
    · by_cases hname : answers.getsockname = invalidSocket ∨ answers.lenRight = false
      · left
        refine ⟨hsocket, ?_⟩
        rw [openSocket, if_pos hdest]
        simp only [if_neg hsocket, if_neg hconnect, if_pos hname, close]
      · right
        refine ⟨hsocket, ?_⟩
        rw [openSocket, if_pos hdest]
        simp only [if_neg hsocket, if_neg hconnect, if_neg hname]

theorem openSocket_refused (this : CSocketTCP) (answers : OpenAnswers)
    (hdest : this.dest.valid = false) : this.openSocket answers = (this, none) := by
  rw [openSocket, hdest]
  rfl

/-! ## Transfers -/

/-- Where a call of `recv` or `send` is, with `l` bytes transferred. -/
inductive Transfer
  | returned (l : Nat)
  /-- in front of the system call -/
  | round (l : Nat)
  deriving DecidableEq, Repr

/-- The beginning of `recv(data, count)` and `send(data, count)`. -/
def transfer (this : CSocketTCP) (count : Nat) : Transfer :=
  if this.isValid then
    if 0 < count then .round 0 else .returned 0
  else
    .returned 0

/-- One round of their loop: the system call has answered `n`. -/
def transferRound (this : CSocketTCP) (count l : Nat) (n : Int) : CSocketTCP × Transfer :=
  let k : Int := (Int32.ofInt n).toInt
  if k ≤ 0 then
    ({ this with valid := false }, .returned l)
  else
    let l := l + k.toNat
    if l < count then (this, .round l) else (this, .returned l)

/-- What a system call may answer when it is asked for `count` bytes: an error, or a number of bytes
that it has transferred; Linux transfers less than `2 ^ 31` at once. -/
def Answers (count : Nat) (n : Int) : Prop :=
  -1 ≤ n ∧ n ≤ count ∧ n < 2 ^ 31

instance (count : Nat) (n : Int) : Decidable (Answers count n) :=
  inferInstanceAs (Decidable (_ ∧ _))

theorem isValid_invalidate (this : CSocketTCP) : { this with valid := false }.isValid = false :=
  Bool.and_false _

/-- The three outcomes of a round. -/
theorem transferRound_cases (this : CSocketTCP) {count l : Nat} {n : Int}
    (hn : Answers (count - l) n) (hl : l < count) :
    (n ≤ 0 ∧ this.transferRound count l n = ({ this with valid := false }, .returned l)) ∨
    (0 < n ∧ l + n.toNat < count ∧ this.transferRound count l n = (this, .round (l + n.toNat))) ∨
    (0 < n ∧ l + n.toNat = count ∧ this.transferRound count l n = (this, .returned count)) := by
  have hk : (Int32.ofInt n).toInt = n :=
    Int32.toInt_ofInt_of_le (by have := hn.1; omega) hn.2.2
  have hcount := hn.2.1
  by_cases hpos : n ≤ 0
  · left
    refine ⟨hpos, ?_⟩
    rw [transferRound, hk, if_pos hpos]
  · right
    by_cases hmore : l + n.toNat < count
    · left
      refine ⟨by omega, hmore, ?_⟩
      rw [transferRound, hk, if_neg hpos]
      exact if_pos hmore
    · right
      have hall : l + n.toNat = count := by omega
      refine ⟨by omega, hall, ?_⟩
      rw [transferRound, hk, if_neg hpos]
      exact (if_neg hmore).trans (by rw [hall])

end CSocketTCP

/-! ## Descriptors -/

inductive SocketOp
  /-- `created`: whether `::socket` succeeds; the other answers as they are -/
  | openSocket (created : Bool) (answers : CSocketTCP.OpenAnswers)
  | close
  /-- a round of `recv` or `send` -/
  | round (count l : Nat) (n : Int)
  deriving DecidableEq, Repr

/-- A socket object, with the descriptors that are open on its account. -/
structure SocketLife where
  socket : CSocketTCP
  /-- created by its `Open` and not closed yet -/
  descriptors : List Int := []
  /-- the name of the next descriptor that is created -/
  next : Nat := 0
  deriving DecidableEq, Repr

namespace SocketLife

open CSocketTCP

def step (s : SocketLife) : SocketOp → Checked SocketLife
  | .openSocket created answers =>
      let answers := { answers with socket := if created then (s.next : Int) else invalidSocket }
      -- `Open` calls `::socket` only for a valid address.
      let created := s.socket.dest.valid && created
      let (socket, closed) := s.socket.openSocket answers
      let descriptors := if created then (s.next : Int) :: s.descriptors else s.descriptors
      pure {
        socket
        descriptors := closed.elim descriptors descriptors.erase
        next := if created then s.next + 1 else s.next }
  | .close =>
      let (socket, closed) := s.socket.close
      pure { s with socket, descriptors := s.descriptors.erase closed }
  | .round count l n => pure { s with socket := (s.socket.transferRound count l n).1 }

/-- No descriptor is open but the one the object knows, and a valid object knows an open one. -/
def Tidy (s : SocketLife) : Prop :=
  (∀ descriptor ∈ s.descriptors, descriptor = s.socket.socket) ∧
    (s.socket.isValid = true → s.socket.socket ∈ s.descriptors)

/-- What an operation owes its caller. -/
def StepRight (s : SocketLife) (op : SocketOp) : Prop :=
  ∃ s', step s op = .ok s' ∧ s'.Tidy

/-- `Open` is not called on a socket that is open. -/
def StepCondition (s : SocketLife) : SocketOp → Prop
  | .openSocket _ _ => s.socket.dest.valid = true → s.socket.socket = invalidSocket
  | _ => True

instance (s : SocketLife) (op : SocketOp) : Decidable (s.StepCondition op) :=
  match op with
  | .openSocket _ _ => inferInstanceAs (Decidable (_ → _))
  | .close => inferInstanceAs (Decidable True)
  | .round _ _ _ => inferInstanceAs (Decidable True)

/-- The descriptor that the object knows is the only one. -/
structure Owns (s : SocketLife) : Prop where
  descriptors : s.descriptors = if s.socket.socket = invalidSocket then [] else [s.socket.socket]
  known : s.socket.socket = invalidSocket ∨ 0 ≤ s.socket.socket ∧ s.socket.socket < s.next

theorem Owns.tidy {s : SocketLife} (h : s.Owns) : s.Tidy := by
  rw [Tidy, h.descriptors]
  by_cases hsocket : s.socket.socket = invalidSocket
  · rw [if_pos hsocket]
    refine ⟨fun _ hmem => absurd hmem List.not_mem_nil, ?_⟩
    intro hvalid
    simp [isValid, hsocket] at hvalid
  · rw [if_neg hsocket]
    exact ⟨fun _ hmem => List.mem_singleton.1 hmem, fun _ => List.mem_singleton_self _⟩

/-- An `Open` that tries leaves the object without a descriptor, or with a new one. -/
theorem step_openSocket (s : SocketLife) (created : Bool) (answers : OpenAnswers)
    (hdest : s.socket.dest.valid = true) :
    ∃ s', step s (.openSocket created answers) = .ok s' ∧
      ((s'.socket.socket = invalidSocket ∧ s'.descriptors = s.descriptors) ∨
        (s'.socket.socket = (s.next : Int) ∧ s'.descriptors = (s.next : Int) :: s.descriptors ∧
          s'.next = s.next + 1)) := by
  cases created with
  | false =>
      rcases openSocket_cases s.socket { answers with socket := invalidSocket } hdest with
        ⟨-, hopen⟩ | ⟨hsocket, -⟩ | ⟨hsocket, -⟩
      · have hstep : step s (.openSocket false answers) =
            .ok { s with socket := { s.socket with socket := invalidSocket } } := by
          simp only [step, Bool.false_eq_true, if_false, hopen, Bool.and_false, Option.elim_none,
            Checked.pure_eq_ok]
        exact ⟨_, hstep, .inl ⟨rfl, rfl⟩⟩
      · exact absurd rfl hsocket
      · exact absurd rfl hsocket
  | true =>
      have hfresh : (s.next : Int) ≠ invalidSocket := by
        rw [invalidSocket]
        omega
      rcases openSocket_cases s.socket { answers with socket := (s.next : Int) } hdest with
        ⟨hsocket, -⟩ | ⟨-, hopen⟩ | ⟨-, hopen⟩
      · exact absurd hsocket hfresh
      · -- A later system call has failed, and `Open` has closed what it had opened.
        have hstep : step s (.openSocket true answers) = .ok { s with
            socket := { s.socket with socket := invalidSocket, valid := false }
            next := s.next + 1 } := by
          simp only [step, if_true, hopen, Bool.and_true, hdest, Option.elim_some,
            List.erase_cons_head, Checked.pure_eq_ok]
        exact ⟨_, hstep, .inl ⟨rfl, rfl⟩⟩
      · have hstep : step s (.openSocket true answers) = .ok {
            socket := { s.socket with
              socket := (s.next : Int)
              source := { addr := answers.addr, valid := true }
              valid := true }
            descriptors := (s.next : Int) :: s.descriptors
            next := s.next + 1 } := by
          simp only [step, if_true, hopen, Bool.and_true, hdest, Option.elim_none,
            Checked.pure_eq_ok]
        exact ⟨_, hstep, .inr ⟨rfl, rfl, rfl⟩⟩

theorem step_openSocket_refused (s : SocketLife) (created : Bool) (answers : OpenAnswers)
    (hdest : s.socket.dest.valid = false) : step s (.openSocket created answers) = .ok s := by
  simp only [step, openSocket_refused _ _ hdest, hdest, Bool.false_and, Bool.false_eq_true,
    if_false, Option.elim_none, Checked.pure_eq_ok]

theorem step_owns {s : SocketLife} (h : s.Owns) {op : SocketOp} (hop : s.StepCondition op) :
    ∃ s', step s op = .ok s' ∧ s'.Owns := by
  cases op with
  | openSocket created answers =>
      cases hdest : s.socket.dest.valid with
      | false => exact ⟨s, step_openSocket_refused s created answers hdest, h⟩
      | true =>
          have hnone : s.descriptors = [] := by rw [h.descriptors, if_pos (hop hdest)]
          rcases step_openSocket s created answers hdest with
            ⟨s', hstep, ⟨hsocket, hsame⟩ | ⟨hsocket, hnew, hnext⟩⟩
          · -- The object was closed, so there is nothing to lose.
            exact ⟨s', hstep, by rw [hsame, hnone, if_pos hsocket], .inl hsocket⟩
          · have hfresh : s'.socket.socket ≠ invalidSocket := by
              rw [hsocket, invalidSocket]
              omega
            refine ⟨s', hstep, by rw [hnew, hnone, if_neg hfresh, hsocket], .inr ?_⟩
            omega
  | close =>
      refine ⟨_, rfl, ?_, .inl rfl⟩
      rw [h.descriptors]
      by_cases hsocket : s.socket.socket = invalidSocket
      · rw [if_pos hsocket]
        rfl
      · rw [if_neg hsocket]
        exact List.erase_cons_head ..
  | round count l n =>
      have hsame : (s.socket.transferRound count l n).1.socket = s.socket.socket := by
        rw [transferRound]
        split
        · rfl
        · dsimp only
          split <;> rfl
      refine ⟨_, rfl, ?_, ?_⟩
      · dsimp only
        rw [hsame]
        exact h.descriptors
      · dsimp only
        rw [hsame]
        exact h.known

/-- An `Open` of a socket that is open loses the old descriptor. -/
theorem Owns.lost {s s' : SocketLife} (h : s.Owns) {created : Bool} {answers : OpenAnswers}
    (hdest : s.socket.dest.valid = true) (hopen : s.socket.socket ≠ invalidSocket)
    (hstep : step s (.openSocket created answers) = .ok s') : ¬ s'.Tidy := by
  have hone : s.descriptors = [s.socket.socket] := by rw [h.descriptors, if_neg hopen]
  rintro ⟨htidy, -⟩
  rcases step_openSocket s created answers hdest with ⟨t, ht, hcases⟩
  rw [hstep] at ht
  cases ht
  rcases hcases with ⟨hsocket, hsame⟩ | ⟨hsocket, hnew, -⟩
  · rw [hsame, hone, hsocket] at htidy
    -- The old descriptor is still open and the object knows none.
    exact hopen (htidy _ (List.mem_singleton_self _))
  · rw [hnew, hone, hsocket] at htidy
    -- Two descriptors are open, and the object knows the new one.
    have hold := htidy s.socket.socket (by simp)
    rcases h.known with hclosed | ⟨-, hlt⟩
    · exact hopen hclosed
    · omega

theorem stepRight_iff {s : SocketLife} (h : s.Owns) (op : SocketOp) :
    s.StepRight op ↔ s.StepCondition op := by
  constructor
  · rintro ⟨s', hstep, htidy⟩
    cases op with
    | openSocket created answers =>
        intro hdest
        by_contra hopen
        exact h.lost hdest hopen hstep htidy
    | close => exact trivial
    | round count l n => exact trivial
  · intro hop
    rcases step_owns h hop with ⟨s', hstep, howns⟩
    exact ⟨s', hstep, howns.tidy⟩

/-- A new socket object for `dest`. -/
def new (dest : CAddressIPv4) : SocketLife :=
  { socket := CSocketTCP.new dest }

theorem new_owns (dest : CAddressIPv4) : (new dest).Owns :=
  ⟨rfl, .inl rfl⟩

/-- In the life of a socket object that knows its one descriptor or none, such as a new one or an
accepted one, whatever the system calls answer: after every operation the descriptors open on its
account are the one it knows or none, and a valid object knows an open one, if and only if `Open` is
never called, with a valid address, on a socket that is open. -/
theorem descriptors_iff (s : SocketLife) (h : s.Owns) (ops : List SocketOp) :
    Along step StepRight s ops ↔ Along step StepCondition s ops :=
  along_iff_of_step (fun _ op ht => stepRight_iff ht op) (fun _ _ ht hop => step_owns ht hop) h ops

/-- A socket that has been accepted as descriptor 3. -/
def acceptedThree : SocketLife where
  socket := { source := { valid := true }, dest := { valid := true }, socket := 3, valid := true }
  descriptors := [3]
  next := 4

theorem descriptors_iff_sample :
    Along step StepRight (new { valid := true })
        [.openSocket true { socket := 0 }, .round 8 0 0, .close,
          .openSocket false { socket := 0 }] ∧
      Along step StepRight acceptedThree
        [.round 8 0 8, .close, .openSocket true { socket := 0 }] ∧
      ¬ Along step StepRight acceptedThree [.openSocket true { socket := 0 }] := by
  have howns : acceptedThree.Owns := ⟨rfl, .inr (by decide)⟩
  refine ⟨?_, ?_, ?_⟩
  · rw [descriptors_iff _ (new_owns { valid := true })]
    decide
  · rw [descriptors_iff acceptedThree howns]
    decide
  · rw [descriptors_iff acceptedThree howns]
    decide

end SocketLife

end Septem

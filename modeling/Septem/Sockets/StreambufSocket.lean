import Septem.Sockets.SocketTCP

/-!
# StreambufSocket — `CStreambufSocket` of `cppsockets/Socket.cpp`

The stream buffer that makes a socket an `iostream`.  It never has a get area, so every call of the
stream reaches one of its virtual functions.  `_buf` is its only look-ahead: a `char` that has been
received and not consumed, or `EOF`.

`_buf = c` extends the sign of a `char`.  A stream buffer owes its reader `to_int_type` of a
character, which is not negative; here the bytes `0x80` to `0xFE` come as negative numbers, and
`0xFF` as `EOF`.  And `xsgetn` drops a look-ahead instead of delivering it.  `reads_right_iff` says
that nothing else is wrong with the functions, and `getLoop_stops` what a loop over single
characters gets of a stream.

The socket is what it still gives and what it still takes, and the two are independent.  A
`CSocketTCP` ties them: once a system call of it has failed it neither gives nor takes any more.
-/

namespace Septem

open Cxx

/-- `EOF`. -/
def eof : Int := -1

/-- A `char` as an `int`; `char` is signed. -/
def charToInt (c : UInt8) : Int :=
  c.toInt8.toInt

/-- An `int` as a `char`. -/
def intToChar (c : Int) : UInt8 :=
  (Int8.ofInt c).toUInt8

/-- `to_char_type` of an `int` that is not `eof()`. -/
def charOf (c : Int) : Option UInt8 :=
  if c = eof then none else some (intToChar c)

/-- What a stream buffer owes for the next character: `to_int_type` of it, or `eof()` behind the
last one. -/
def owedInt (unread : Bytes) : Int :=
  unread.head?.elim eof fun c => c.toNat

/-- The stream buffer, with what its socket does: it gives the bytes of `incoming` before its
connection ends, and takes `room` more. -/
structure CStreambufSocket where
  buf : Int := eof
  incoming : Bytes := []
  outgoing : Bytes := []
  room : Nat := 0
  deriving DecidableEq, Repr

namespace CStreambufSocket

/-- `_sock->recv(data, count)` waits until it has `count` bytes; it gives less only when there are
no more. -/
def recv (this : CStreambufSocket) (count : Nat) : Bytes × CStreambufSocket :=
  (this.incoming.take count, { this with incoming := this.incoming.drop count })

/-- `_sock->send(data, count)`. -/
def send (this : CStreambufSocket) (data : Bytes) : Nat × CStreambufSocket :=
  let sent := data.take this.room
  (sent.length,
    { this with outgoing := this.outgoing ++ sent, room := this.room - sent.length })

def showmanyc (this : CStreambufSocket) : Int :=
  if this.buf ≠ eof then 1 else 0

def xsgetn (this : CStreambufSocket) (n : Nat) : Bytes × CStreambufSocket :=
  let (s, this) := this.recv n
  (s, { this with buf := eof })

/-- `_uflow()`. -/
def uflowSocket (this : CStreambufSocket) : Int × CStreambufSocket :=
  match this.recv 1 with
  | ([c], this) => (charToInt c, { this with buf := charToInt c })
  | (_, this) => (eof, { this with buf := eof })

def underflow (this : CStreambufSocket) : Int × CStreambufSocket :=
  if this.buf = eof then this.uflowSocket else (this.buf, this)

def uflow (this : CStreambufSocket) : Int × CStreambufSocket :=
  if this.buf = eof then
    match this.uflowSocket with
    | (c, this) => if c = eof then (eof, this) else (c, { this with buf := eof })
  else
    (this.buf, { this with buf := eof })

def xsputn (this : CStreambufSocket) (s : Bytes) : Nat × CStreambufSocket :=
  this.send s

def overflow (this : CStreambufSocket) (c : Int) : Int × CStreambufSocket :=
  if c = eof then
    (eof, this)
  else
    match this.send [intToChar c] with
    | (l, this) => if l = 1 then (c, this) else (eof, this)

/-- The bytes a reader has not consumed yet. -/
def unread (this : CStreambufSocket) : Bytes :=
  (charOf this.buf).toList ++ this.incoming

/-- `_buf` is a `char`, or `EOF`, which is the `int` of one too. -/
def HoldsChar (this : CStreambufSocket) : Prop :=
  ∃ c, this.buf = charToInt c

end CStreambufSocket

/-- What a stream calls. -/
inductive StreamOp
  | sgetc
  | sbumpc
  | sgetn (n : Nat)
  | inAvail
  | sputc (c : UInt8)
  | sputn (s : Bytes)
  deriving DecidableEq, Repr

/-- What it gets. -/
inductive StreamAnswer
  | int (c : Int)
  | data (s : Bytes)
  deriving DecidableEq, Repr

structure StreamSession where
  streambuf : CStreambufSocket
  answers : List StreamAnswer := []
  deriving DecidableEq, Repr

namespace StreamSession

open CStreambufSocket

/-- A call: what it answers, and the buffer behind it. -/
def call (this : CStreambufSocket) : StreamOp → StreamAnswer × CStreambufSocket
  | .sgetc => this.underflow.map .int id
  | .sbumpc => this.uflow.map .int id
  | .sgetn n => (this.xsgetn n).map .data id
  | .inAvail => (.int this.showmanyc, this)
  | .sputc c => (this.overflow c.toNat).map .int id
  | .sputn s =>
      let (l, this) := this.xsputn s
      (.int l, this)

def step (s : StreamSession) (op : StreamOp) : Checked StreamSession :=
  let (answer, streambuf) := call s.streambuf op
  pure { streambuf, answers := s.answers ++ [answer] }

/-- What a stream over the bytes `unread` owes its reader and writer: the characters in order, each
once, and on the way out the same. -/
def AnswerRight (this : CStreambufSocket) (op : StreamOp) (answer : StreamAnswer)
    (after : CStreambufSocket) : Prop :=
  match op, answer with
  | .sgetc, .int c => c = owedInt this.unread ∧ after.unread = this.unread ∧
      after.outgoing = this.outgoing
  | .sbumpc, .int c => c = owedInt this.unread ∧ after.unread = this.unread.tail ∧
      after.outgoing = this.outgoing
  | .sgetn n, .data s => s = this.unread.take n ∧ after.unread = this.unread.drop n ∧
      after.outgoing = this.outgoing
  | .inAvail, .int k => 0 ≤ k ∧ k ≤ this.unread.length ∧ after = this
  | .sputc c, .int k => after.unread = this.unread ∧
      ((k = c.toNat ∧ after.outgoing = this.outgoing ++ [c]) ∨
        (k = eof ∧ this.room = 0 ∧ after.outgoing = this.outgoing))
  | .sputn s, .int k => after.unread = this.unread ∧ 0 ≤ k ∧
      after.outgoing = this.outgoing ++ s.take k.toNat ∧ (k = s.length ∨ after.room = 0)
  | _, _ => False

def StepRight (s : StreamSession) (op : StreamOp) : Prop :=
  ∃ s' answer, step s op = .ok s' ∧ s'.answers = s.answers ++ [answer] ∧
    AnswerRight s.streambuf op answer s'.streambuf

/-- The sign of the next character is not set. -/
def Readable (this : CStreambufSocket) : Prop :=
  ∀ c ∈ this.unread.head?, c < 0x80

/-- A character is only read when its sign is not set, and a block only when no look-ahead is
pending. -/
def StepCondition (s : StreamSession) : StreamOp → Prop
  | .sgetc => Readable s.streambuf
  | .sbumpc => Readable s.streambuf
  | .sgetn _ => s.streambuf.buf = eof
  | _ => True

/-! ## Characters -/

theorem charToInt_eq_eof {c : UInt8} : charToInt c = eof ↔ c = 0xFF := by
  have heof : eof = (0xFF : UInt8).toInt8.toInt := rfl
  rw [charToInt, heof, Int8.toInt_inj]
  constructor
  · intro h
    have hback := congrArg Int8.toUInt8 h
    rwa [UInt8.toUInt8_toInt8, UInt8.toUInt8_toInt8] at hback
  · rintro rfl
    rfl

/-- Sign extension gives `to_int_type` when there is no sign. -/
theorem charToInt_eq_toNat_iff {c : UInt8} : charToInt c = c.toNat ↔ c < 0x80 := by
  have hlt := c.toNat_lt
  rw [charToInt, UInt8.lt_iff_toNat_lt, Int8.toInt, UInt8.toBitVec_toInt8,
    BitVec.toInt_eq_toNat_bmod, UInt8.toNat_toBitVec, Int.bmod]
  have hbound : (0x80 : UInt8).toNat = 128 := rfl
  split <;> omega

theorem charOf_charToInt {c : UInt8} (hc : c ≠ 0xFF) : charOf (charToInt c) = some c := by
  have hne : charToInt c ≠ eof := fun h => hc (charToInt_eq_eof.1 h)
  rw [charOf, if_neg hne, intToChar, charToInt, Int8.ofInt_toInt, UInt8.toUInt8_toInt8]

/-- `to_int_type` of a character is never `eof()`, and gives the character back. -/
theorem charOf_toNat (c : UInt8) : charOf c.toNat = some c := by
  have hne : (c.toNat : Int) ≠ eof := by
    rw [eof]
    omega
  have hback : intToChar c.toNat = c := by
    rw [intToChar, Int8.ofInt_eq_ofNat]
    simp
  rw [charOf, if_neg hne, hback]

/-! ## Calls -/

section Calls

variable {this : CStreambufSocket}

theorem unread_of_eof (hbuf : this.buf = eof) : this.unread = this.incoming := by
  rw [unread, charOf, if_pos hbuf, Option.toList_none, List.nil_append]

theorem unread_of_ne (hbuf : this.buf ≠ eof) :
    this.unread = intToChar this.buf :: this.incoming := by
  rw [unread, charOf, if_neg hbuf, Option.toList_some, List.singleton_append]

theorem underflow_cases (this : CStreambufSocket) :
    (this.buf ≠ eof ∧ this.underflow = (this.buf, this)) ∨
      (this.buf = eof ∧ this.incoming = [] ∧ this.underflow = (eof, this)) ∨
      (this.buf = eof ∧ ∃ c rest, this.incoming = c :: rest ∧
        this.underflow = (charToInt c, { this with buf := charToInt c, incoming := rest })) := by
  rcases this with ⟨buf, incoming, outgoing, room⟩
  by_cases hbuf : buf = eof
  · subst hbuf
    right
    cases incoming with
    | nil => exact .inl ⟨rfl, rfl, rfl⟩
    | cons c rest => exact .inr ⟨rfl, c, rest, rfl, rfl⟩
  · exact .inl ⟨hbuf, if_neg hbuf⟩

theorem unread_of_char {c : UInt8} (hbuf : this.buf = charToInt c) (hc : c ≠ 0xFF) :
    this.unread = c :: this.incoming := by
  rw [unread, hbuf, charOf_charToInt hc, Option.toList_some, List.singleton_append]

theorem readable_cons_iff {c : UInt8} {rest : Bytes} (hcons : this.unread = c :: rest) :
    Readable this ↔ c < 0x80 := by
  rw [Readable, hcons]
  constructor
  · intro h
    exact h c rfl
  · intro hc c' hc'
    rwa [← Option.some.inj hc']

/-- A look at the next character answers right exactly when its sign is not set. -/
theorem underflow_owed_iff (h : this.HoldsChar) :
    this.underflow.1 = owedInt this.unread ↔ Readable this := by
  rcases underflow_cases this with
    ⟨hbuf, hunder⟩ | ⟨hbuf, hnil, hunder⟩ | ⟨hbuf, c, rest, hcons, hunder⟩
  · rcases h with ⟨c, hchar⟩
    have hc : c ≠ 0xFF := by
      rintro rfl
      exact hbuf hchar
    have hunread := unread_of_char hchar hc
    rw [hunder, readable_cons_iff hunread, hunread, hchar]
    exact charToInt_eq_toNat_iff
  · rw [hunder, Readable, unread_of_eof hbuf, hnil]
    exact iff_of_true rfl nofun
  · -- The byte is still in the socket, and is answered as it will be held.
    have hunread : this.unread = c :: rest := by rw [unread_of_eof hbuf, hcons]
    rw [hunder, readable_cons_iff hunread, hunread]
    exact charToInt_eq_toNat_iff

/-- The look-ahead is what the look has given. -/
theorem underflow_buf (this : CStreambufSocket) : this.underflow.2.buf = this.underflow.1 := by
  rcases underflow_cases this with
    ⟨-, hunder⟩ | ⟨hbuf, -, hunder⟩ | ⟨-, c, rest, -, hunder⟩
  · rw [hunder]
  · rw [hunder]
    exact hbuf
  · rw [hunder]

theorem underflow_outgoing (this : CStreambufSocket) :
    this.underflow.2.outgoing = this.outgoing := by
  rcases underflow_cases this with
    ⟨-, hunder⟩ | ⟨-, -, hunder⟩ | ⟨-, c, rest, -, hunder⟩ <;> rw [hunder]

theorem underflow_holdsChar (h : this.HoldsChar) : this.underflow.2.HoldsChar := by
  rcases underflow_cases this with
    ⟨-, hunder⟩ | ⟨-, -, hunder⟩ | ⟨-, c, rest, -, hunder⟩
  · rwa [hunder]
  · rwa [hunder]
  · rw [hunder]
    exact ⟨c, rfl⟩

theorem underflow_unread (h : Readable this) : this.underflow.2.unread = this.unread := by
  rcases underflow_cases this with
    ⟨-, hunder⟩ | ⟨-, -, hunder⟩ | ⟨hbuf, c, rest, hcons, hunder⟩
  · rw [hunder]
  · rw [hunder]
  · have hunread : this.unread = c :: rest := by rw [unread_of_eof hbuf, hcons]
    have hc : c ≠ 0xFF := by
      rintro rfl
      exact absurd ((readable_cons_iff hunread).1 h) (by decide)
    rw [hunder, hunread]
    exact unread_of_char rfl hc

/-- `uflow` is a look at the next character that drops it from the look-ahead. -/
theorem uflow_eq (this : CStreambufSocket) :
    this.uflow = (this.underflow.1, { this.underflow.2 with buf := eof }) := by
  by_cases hbuf : this.buf = eof
  · have hlook := underflow_buf this
    rw [underflow, if_pos hbuf] at hlook ⊢
    rw [uflow, if_pos hbuf]
    generalize this.uflowSocket = got at hlook ⊢
    rcases got with ⟨c, after⟩
    by_cases hc : c = eof
    · subst hc
      -- `uflow` returns without clearing the look-ahead, which is `EOF` already.
      cases after
      cases hlook
      rfl
    · exact if_neg hc
  · rw [uflow, underflow, if_neg hbuf, if_neg hbuf]

theorem uflow_unread (h : Readable this) : this.uflow.2.unread = this.unread.tail := by
  have hunread := underflow_unread h
  rw [uflow_eq, unread_of_eof rfl]
  by_cases hbuf : this.underflow.2.buf = eof
  · -- Without a look-ahead after a look there are no bytes left.
    rcases underflow_cases this with
      ⟨hheld, hunder⟩ | ⟨-, hnil, hunder⟩ | ⟨hnone, c, rest, hcons, hunder⟩
    · rw [hunder] at hbuf
      exact absurd hbuf hheld
    · rw [unread_of_eof hbuf] at hunread
      rw [← hunread, hunder, hnil]
      rfl
    · rw [hunder] at hbuf
      have hfirst : this.unread = c :: rest := by rw [unread_of_eof hnone, hcons]
      have hlow := (readable_cons_iff hfirst).1 h
      rw [charToInt_eq_eof.1 hbuf] at hlow
      exact absurd hlow (by decide)
  · rw [unread_of_ne hbuf] at hunread
    rw [← hunread]
    rfl

/-- A block misses the look-ahead, so there must be none. -/
theorem xsgetn_right_iff (n : Nat) :
    ((this.xsgetn n).1 = this.unread.take n ∧ (this.xsgetn n).2.unread = this.unread.drop n) ↔
      this.buf = eof := by
  have hafter : (this.xsgetn n).2.unread = this.incoming.drop n := unread_of_eof rfl
  have hgot : (this.xsgetn n).1 = this.incoming.take n := rfl
  rw [hafter, hgot]
  by_cases hbuf : this.buf = eof
  · rw [unread_of_eof hbuf]
    exact iff_of_true ⟨rfl, rfl⟩ hbuf
  · refine iff_of_false ?_ hbuf
    rintro ⟨htake, hdrop⟩
    -- The two halves of the answer would make the socket's bytes those not read yet, look-ahead included.
    have hsame : this.incoming = this.unread := by
      calc
        this.incoming = this.incoming.take n ++ this.incoming.drop n :=
          (List.take_append_drop n _).symm
        _ = this.unread.take n ++ this.unread.drop n := by rw [htake, hdrop]
        _ = this.unread := List.take_append_drop n _
    rw [unread_of_ne hbuf] at hsame
    exact List.cons_ne_self _ _ hsame.symm

theorem showmanyc_le (this : CStreambufSocket) :
    0 ≤ this.showmanyc ∧ this.showmanyc ≤ this.unread.length := by
  rw [showmanyc]
  by_cases hbuf : this.buf = eof
  · rw [if_neg (not_not.2 hbuf)]
    exact ⟨Int.le_refl 0, Int.natCast_nonneg _⟩
  · rw [if_pos hbuf, unread_of_ne hbuf, List.length_cons]
    omega

/-- A character goes out, or the connection takes nothing any more. -/
theorem overflow_cases (this : CStreambufSocket) (c : UInt8) :
    (0 < this.room ∧ this.overflow c.toNat = (↑c.toNat, { this with
      outgoing := this.outgoing ++ [c], room := this.room - 1 })) ∨
      (this.room = 0 ∧ this.overflow c.toNat = (eof, this)) := by
  have hchar := charOf_toNat c
  rw [charOf] at hchar
  by_cases hc : (c.toNat : Int) = eof
  · rw [if_pos hc] at hchar
    cases hchar
  · rw [if_neg hc] at hchar
    rw [overflow, if_neg hc, Option.some.inj hchar, send]
    rcases this with ⟨buf, incoming, outgoing, room⟩
    cases room with
    | zero =>
        right
        refine ⟨rfl, ?_⟩
        simp
    | succ room =>
        left
        refine ⟨Nat.succ_pos room, ?_⟩
        simp

end Calls

/-! ## Sessions -/

instance (this : CStreambufSocket) : Decidable (Readable this) :=
  match hnext : this.unread.head? with
  | none => .isTrue (by simp [Readable, hnext])
  | some c => decidable_of_iff (c < 0x80) (by simp [Readable, hnext])

instance (s : StreamSession) (op : StreamOp) : Decidable (StepCondition s op) :=
  match op with
  | .sgetc => inferInstanceAs (Decidable (Readable s.streambuf))
  | .sbumpc => inferInstanceAs (Decidable (Readable s.streambuf))
  | .sgetn _ => inferInstanceAs (Decidable (s.streambuf.buf = eof))
  | .inAvail | .sputc _ | .sputn _ => inferInstanceAs (Decidable True)

theorem step_eq (s : StreamSession) (op : StreamOp) : step s op = .ok {
    streambuf := (call s.streambuf op).2
    answers := s.answers ++ [(call s.streambuf op).1] } := rfl

theorem answerRight_iff {s : StreamSession} (h : s.streambuf.HoldsChar) (op : StreamOp) :
    AnswerRight s.streambuf op (call s.streambuf op).1 (call s.streambuf op).2 ↔
      s.StepCondition op := by
  cases op with
  | sgetc =>
      constructor
      · rintro ⟨howed, -⟩
        exact (underflow_owed_iff h).1 howed
      · intro hread
        exact ⟨(underflow_owed_iff h).2 hread, underflow_unread hread, underflow_outgoing _⟩
  | sbumpc =>
      have hsame : (call s.streambuf .sbumpc).1 = .int s.streambuf.underflow.1 := by
        rw [call, uflow_eq]
        rfl
      rw [hsame]
      constructor
      · rintro ⟨howed, -⟩
        exact (underflow_owed_iff h).1 howed
      · intro hread
        refine ⟨(underflow_owed_iff h).2 hread, uflow_unread hread, ?_⟩
        rw [call, uflow_eq]
        exact underflow_outgoing _
  | sgetn n =>
      constructor
      · rintro ⟨hgot, hafter, -⟩
        exact (xsgetn_right_iff n).1 ⟨hgot, hafter⟩
      · intro hnone
        rcases (xsgetn_right_iff n).2 hnone with ⟨hgot, hafter⟩
        exact ⟨hgot, hafter, rfl⟩
  | inAvail =>
      rcases showmanyc_le s.streambuf with ⟨hlo, hhi⟩
      exact iff_of_true ⟨hlo, hhi, rfl⟩ trivial
  | sputc c =>
      refine iff_of_true ?_ trivial
      rcases overflow_cases s.streambuf c with ⟨hroom, hover⟩ | ⟨hroom, hover⟩
      · rw [call, hover]
        exact ⟨rfl, .inl ⟨rfl, rfl⟩⟩
      · rw [call, hover]
        exact ⟨rfl, .inr ⟨rfl, hroom, rfl⟩⟩
  | sputn data =>
      refine iff_of_true ⟨rfl, Int.natCast_nonneg _, ?_, ?_⟩ trivial
      · -- What has gone out is as much of `data` as the answer says.
        have hsent : data.take (data.take s.streambuf.room).length = data.take s.streambuf.room := by
          rw [List.length_take, ← List.take_take, List.take_length]
        exact congrArg (s.streambuf.outgoing ++ ·) hsent.symm
      · have hlen : (data.take s.streambuf.room).length = min s.streambuf.room data.length :=
          List.length_take
        -- Either all of it, or there is no room left.
        by_cases hall : data.length ≤ s.streambuf.room
        · left
          omega
        · right
          have hroom : (call s.streambuf (.sputn data)).2.room =
            s.streambuf.room - (data.take s.streambuf.room).length := rfl
          omega

theorem stepRight_iff {s : StreamSession} (h : s.streambuf.HoldsChar) (op : StreamOp) :
    s.StepRight op ↔ s.StepCondition op := by
  rw [← answerRight_iff h, StepRight]
  constructor
  · rintro ⟨s', answer, hstep, hanswers, hright⟩
    rw [step_eq] at hstep
    cases hstep
    cases List.append_cancel_left hanswers
    exact hright
  · intro hright
    exact ⟨_, _, step_eq s op, rfl, hright⟩

/-- Every call leaves a character or `EOF` in `_buf`. -/
theorem call_holdsChar {this : CStreambufSocket} (h : this.HoldsChar) (op : StreamOp) :
    (call this op).2.HoldsChar := by
  have hnone : eof = charToInt 0xFF := (charToInt_eq_eof.2 rfl).symm
  cases op with
  | sgetc => exact underflow_holdsChar h
  | sbumpc =>
      rw [call, uflow_eq]
      exact ⟨0xFF, hnone⟩
  | sgetn n => exact ⟨0xFF, hnone⟩
  | inAvail => exact h
  | sputc c =>
      rcases overflow_cases this c with ⟨-, hover⟩ | ⟨-, hover⟩
      · rw [call, hover]
        exact h
      · rw [call, hover]
        exact h
  | sputn data => exact h

/-- In every run of calls on a stream over a socket, from any state with a `char` or `EOF` in
`_buf`: every call answers as a stream over the bytes not read yet should, if and only if a
character is only read when it is less than `0x80`, and a block only when no look-ahead is
pending. -/
theorem reads_right_iff (s : StreamSession) (hchar : s.streambuf.HoldsChar)
    (ops : List StreamOp) : Along step StepRight s ops ↔ Along step StepCondition s ops := by
  have hiff (t : StreamSession) (op : StreamOp) (ht : t.streambuf.HoldsChar) :
      t.StepRight op ↔ t.StepCondition op := stepRight_iff ht op
  have hstep (t : StreamSession) (op : StreamOp) (ht : t.streambuf.HoldsChar)
      (_ : t.StepCondition op) : ∃ t', step t op = .ok t' ∧ t'.streambuf.HoldsChar :=
    ⟨_, step_eq t op, call_holdsChar ht op⟩
  exact along_iff_of_step hiff hstep hchar ops

/-- A byte `5` is read, and the byte `200` behind it comes as `-56`. -/
theorem reads_right_iff_signed :
    let s : StreamSession := { streambuf := { incoming := [5, 200] } }
    Along step StepRight s [.sgetc, .sbumpc] ∧ ¬ Along step StepRight s [.sgetc, .sbumpc, .sgetc] ∧
      run step s [.sgetc, .sbumpc, .sgetc] = .ok {
        streambuf := { buf := -56 }, answers := [.int 5, .int 5, .int (-56)] } := by
  intro s
  have hchar : s.streambuf.HoldsChar := ⟨0xFF, rfl⟩
  refine ⟨(reads_right_iff s hchar _).2 (by decide), ?_, rfl⟩
  rw [reads_right_iff s hchar]
  decide

/-! ## Reading character by character -/

section GetLoop

variable (outgoing : Bytes) (room : Nat) (answers : List StreamAnswer)

theorem step_sbumpc_cons (c : UInt8) (rest : Bytes) :
    step ⟨⟨eof, c :: rest, outgoing, room⟩, answers⟩ .sbumpc =
      .ok ⟨⟨eof, rest, outgoing, room⟩, answers ++ [.int (charToInt c)]⟩ := by
  rw [step_eq, call, uflow_eq]
  rfl

theorem step_sbumpc_nil :
    step ⟨⟨eof, [], outgoing, room⟩, answers⟩ .sbumpc =
      .ok ⟨⟨eof, [], outgoing, room⟩, answers ++ [.int eof]⟩ := rfl

/-- A loop that reads characters until it gets `EOF` gets the bytes in front of the first `0xFF`.
This byte is lost, and what follows it is left in the socket. -/
theorem getLoop_stops (incoming : Bytes) :
    run step ⟨⟨eof, incoming, outgoing, room⟩, answers⟩
        (List.replicate ((incoming.takeWhile (· ≠ 0xFF)).length + 1) .sbumpc) =
      .ok ⟨⟨eof, (incoming.dropWhile (· ≠ 0xFF)).tail, outgoing, room⟩,
        answers ++ (incoming.takeWhile (· ≠ 0xFF)).map (fun c => .int (charToInt c)) ++
          [.int eof]⟩ := by
  induction incoming generalizing answers with
  | nil =>
      rw [List.takeWhile_nil, List.dropWhile_nil, List.map_nil, List.append_nil]
      exact congrArg (· >>= pure) (step_sbumpc_nil outgoing room answers)
  | cons c rest ih =>
      have hstep := step_sbumpc_cons outgoing room answers c rest
      by_cases hc : c = 0xFF
      · -- The byte is taken for the end.
        subst hc
        rw [List.takeWhile_cons_of_neg (by decide), List.dropWhile_cons_of_neg (by decide),
          List.map_nil, List.append_nil]
        exact congrArg (· >>= pure) hstep
      · have hkeep : decide (c ≠ 0xFF) = true := decide_eq_true hc
        have htake : (c :: rest).takeWhile (· ≠ 0xFF) = c :: rest.takeWhile (· ≠ 0xFF) :=
          List.takeWhile_cons_of_pos hkeep
        have hdrop : (c :: rest).dropWhile (· ≠ 0xFF) = rest.dropWhile (· ≠ 0xFF) :=
          List.dropWhile_cons_of_pos hkeep
        rw [htake, hdrop, List.length_cons, List.replicate_succ, run, hstep, Checked.ok_bind, ih,
          List.map_cons, List.append_assoc, List.append_assoc, List.append_assoc,
          List.singleton_append, List.cons_append]

end GetLoop

end StreamSession

end Septem

import HttpBalancer.Net.HttpParser

/-! A client connection: the request parser and the response bytes the socket has not taken yet. -/

namespace HttpBalancer.Net

inductive SendResult
  | sent (n : ℕ)
  | again
  | failed
  deriving DecidableEq

inductive RecvResult
  | received (data : Bytes)
  | again
  | failed
  deriving DecidableEq

structure Connection where
  parser : HttpParser := Parser.fresh
  writeBuffer : Bytes := []
  writeOffset : ℕ := 0
  pendingKeepAlive : Bool := true
  offset_le : writeOffset ≤ writeBuffer.length := by decide

namespace Connection

def fresh : Connection := {}

def queueWrite (c : Connection) (data : Bytes) : Connection := { c with
  writeBuffer := c.writeBuffer ++ data
  offset_le := by
    have := c.offset_le
    simp only [List.length_append]
    omega }

def hasPendingWrite (c : Connection) : Bool := c.writeOffset < c.writeBuffer.length

def setPendingKeepAlive (c : Connection) (keepAlive : Bool) : Connection :=
  { c with pendingKeepAlive := keepAlive }

def resetParser (c : Connection) : Connection := { c with parser := c.parser.reset }

def unsent (c : Connection) : Bytes := c.writeBuffer.drop c.writeOffset

def advance (c : Connection) (n : ℕ) : Connection := { c with
  writeOffset := c.writeOffset + min n (c.writeBuffer.length - c.writeOffset)
  offset_le := by
    have := c.offset_le
    omega }

-- the buffer itself is not cleared on an error
def abandon (c : Connection) : Connection :=
  { c with writeOffset := c.writeBuffer.length, offset_le := le_rfl }

def clear (c : Connection) : Connection :=
  { c with writeBuffer := [], writeOffset := 0, offset_le := le_rfl }

structure Flush where
  conn : Connection
  flushed : Bool
  taken : Bytes

def drained (c : Connection) : Flush :=
  if c.writeOffset = c.writeBuffer.length ∧ c.writeBuffer ≠ [] then ⟨c.clear, true, []⟩
  else ⟨c, true, []⟩

/-- `sends` are the results of the calls of `send`; when they are used up the socket is full. -/
def flushWrite (c : Connection) : List SendResult → Flush
  | [] => if c.hasPendingWrite then ⟨c, false, []⟩ else c.drained
  | r :: sends =>
    if c.hasPendingWrite then
      match r with
      | .again => ⟨c, false, []⟩
      | .failed => ⟨c.abandon, true, []⟩
      | .sent 0 => ⟨c.abandon, true, []⟩
      | .sent (n + 1) =>
        let f := flushWrite (c.advance (n + 1)) sends
        ⟨f.conn, f.flushed, c.unsent.take (n + 1) ++ f.taken⟩
    else c.drained

lemma hasPendingWrite_iff (c : Connection) : c.hasPendingWrite = true ↔ c.unsent ≠ [] := by
  simp [hasPendingWrite, unsent]

lemma hasPendingWrite_eq_false (c : Connection) : c.hasPendingWrite = false ↔ c.unsent = [] := by
  simp [hasPendingWrite, unsent]

lemma unsent_advance (c : Connection) (n : ℕ) : (c.advance n).unsent = c.unsent.drop n := by
  have := c.offset_le
  simp only [unsent, advance, List.drop_drop]
  by_cases h : n ≤ c.writeBuffer.length - c.writeOffset
  · rw [min_eq_left h]
  · rw [List.drop_of_length_le (by omega), List.drop_of_length_le (by omega)]

lemma unsent_queueWrite (c : Connection) (data : Bytes) :
    (c.queueWrite data).unsent = c.unsent ++ data := by
  simp only [unsent, queueWrite]
  rw [List.drop_append_of_le_length c.offset_le]

@[simp] lemma unsent_setPendingKeepAlive (c : Connection) (b : Bool) :
    (c.setPendingKeepAlive b).unsent = c.unsent := rfl

@[simp] lemma unsent_resetParser (c : Connection) : c.resetParser.unsent = c.unsent := rfl

@[simp] lemma pendingKeepAlive_resetParser (c : Connection) :
    c.resetParser.pendingKeepAlive = c.pendingKeepAlive := rfl

@[simp] lemma unsent_abandon (c : Connection) : c.abandon.unsent = [] := by simp [unsent, abandon]

def Flush.next (f : Flush) : Connection := if f.flushed then f.conn.resetParser else f.conn

@[simp] lemma Flush.unsent_next (f : Flush) : f.next.unsent = f.conn.unsent := by
  rw [next]
  split_ifs <;> rfl

@[simp] lemma Flush.pendingKeepAlive_next (f : Flush) :
    f.next.pendingKeepAlive = f.conn.pendingKeepAlive := by
  rw [next]
  split_ifs <;> rfl

lemma flush_induction {motive : Connection → List SendResult → Flush → Prop}
    (done : ∀ c sends c', c.unsent = [] → c'.unsent = [] → c'.parser = c.parser →
      c'.pendingKeepAlive = c.pendingKeepAlive → motive c sends ⟨c', true, []⟩)
    (full : ∀ c sends, c.unsent ≠ [] → (sends = [] ∨ ∃ l, sends = .again :: l) →
      motive c sends ⟨c, false, []⟩)
    (error : ∀ c sends l, c.unsent ≠ [] → (sends = .failed :: l ∨ sends = .sent 0 :: l) →
      motive c sends ⟨c.abandon, true, []⟩)
    (more : ∀ c n sends f, c.unsent ≠ [] → f = (c.advance (n + 1)).flushWrite sends →
      motive (c.advance (n + 1)) sends f →
      motive c (.sent (n + 1) :: sends) ⟨f.conn, f.flushed, c.unsent.take (n + 1) ++ f.taken⟩)
    (c : Connection) (sends : List SendResult) : motive c sends (c.flushWrite sends) := by
  have hd : ∀ (c : Connection) sends, c.unsent = [] → motive c sends c.drained := by
    intro c sends hp
    rw [drained]
    split_ifs
    · exact done c _ _ hp rfl rfl rfl
    · exact done c _ c hp hp rfl rfl
  induction sends generalizing c with
  | nil =>
    rw [flushWrite]
    split_ifs with hp <;> rw [hasPendingWrite_iff] at hp
    · exact full c [] hp (Or.inl rfl)
    · exact hd c [] (not_not.mp hp)
  | cons r sends ih =>
    rw [flushWrite.eq_def]
    dsimp only
    split_ifs with hp <;> rw [hasPendingWrite_iff] at hp
    · cases r with
      | again => exact full c _ hp (Or.inr ⟨sends, rfl⟩)
      | failed => exact error c _ sends hp (Or.inl rfl)
      | sent n =>
        cases n with
        | zero => exact error c _ sends hp (Or.inr rfl)
        | succ n => exact more c n sends _ hp rfl (ih _)
    · exact hd c _ (not_not.mp hp)

@[simp] lemma pendingKeepAlive_flush (c : Connection) (sends : List SendResult) :
    (c.flushWrite sends).conn.pendingKeepAlive = c.pendingKeepAlive := by
  induction c, sends using flush_induction with
  | done c sends c' _ _ _ hk => exact hk
  | full | error => rfl
  | more c n sends f _ _ ih => exact ih

lemma flush_pending (c : Connection) (sends : List SendResult) :
    (c.flushWrite sends).flushed = true ↔ (c.flushWrite sends).conn.unsent = [] := by
  induction c, sends using flush_induction with
  | done c sends c' _ hc _ _ => simp [hc]
  | full c sends hc _ => simp [hc]
  | error c sends l _ _ => simp
  | more c n sends f _ _ ih => exact ih

end Connection

def room : List SendResult → ℕ
  | .sent (n + 1) :: sends => n + 1 + room sends
  | _ => 0

def NoHardError (sends : List SendResult) : Prop := ∀ r ∈ sends, r ≠ .failed ∧ r ≠ .sent 0

instance : DecidablePred NoHardError := fun sends => List.decidableBAll _ sends

namespace Connection

lemma flush_room (c : Connection) {sends : List SendResult} (h : NoHardError sends) :
    (c.flushWrite sends).taken = c.unsent.take (room sends) ∧
      (c.flushWrite sends).conn.unsent = c.unsent.drop (room sends) := by
  induction c, sends using flush_induction with
  | done c sends c' hc hc' _ _ => simp [hc, hc']
  | full c sends _ hs => rcases hs with rfl | ⟨l, rfl⟩ <;> simp [room]
  | error c sends l _ hs =>
    rcases hs with rfl | rfl
    · exact absurd rfl (h .failed (by simp)).1
    · exact absurd rfl (h (.sent 0) (by simp)).2
  | more c n sends f _ hf ih =>
    obtain ⟨ht, hu⟩ := ih fun r hr => h r (by simp [hr])
    rw [unsent_advance] at ht hu
    simp only [room, ht, hu, List.drop_drop, List.take_add, and_self]

lemma flushed_iff_room (c : Connection) {sends : List SendResult} (h : NoHardError sends) :
    (c.flushWrite sends).flushed = true ↔ c.unsent.length ≤ room sends := by
  rw [flush_pending, (c.flush_room h).2, List.drop_eq_nil_iff]

lemma flush_conserved (c : Connection) {sends : List SendResult} (h : NoHardError sends) :
    (c.flushWrite sends).taken ++ (c.flushWrite sends).conn.unsent = c.unsent := by
  obtain ⟨ht, hu⟩ := c.flush_room h
  rw [ht, hu, List.take_append_drop]

end Connection

end HttpBalancer.Net

import Octar.Lib.GoMap
import Mathlib.Data.List.Basic

namespace Go

/-- A writer: its state after a call, how many bytes the call has taken, and whether it reports an
error.  It reports one if it has not taken all. -/
structure Sink (σ : Type) where
  write : σ → Bytes → σ × Nat × Bool
  taken : σ → Bytes
  short : ∀ s p, (write s p).2.1 < p.length → (write s p).2.2 = true
  taken_write : ∀ s p, taken (write s p).1 = taken s ++ p.take (write s p).2.1

structure BufferedWriter (σ : Type) where
  size : Nat
  sink : σ
  buf : Bytes
  err : Bool

namespace BufferedWriter

variable {σ : Type} (w : Sink σ)

def available (b : BufferedWriter σ) : Nat := b.size - b.buf.length

def flush (b : BufferedWriter σ) : BufferedWriter σ :=
  if b.err then b
  else if b.buf.length = 0 then b
  else
    let r := w.write b.sink b.buf
    if r.2.2 || r.2.1 < b.buf.length then
      { b with sink := r.1, buf := b.buf.drop r.2.1, err := true }
    else { b with sink := r.1, buf := [] }

def writeLoop : Nat → BufferedWriter σ → Bytes → BufferedWriter σ × Bytes
  | 0, b, p => (b, p)
  | rounds + 1, b, p =>
    if b.available < p.length && !b.err then
      if b.buf.length = 0 then
        let r := w.write b.sink p
        writeLoop rounds { b with sink := r.1, err := r.2.2 } (p.drop r.2.1)
      else writeLoop rounds (flush w { b with buf := b.buf ++ p.take b.available })
        (p.drop b.available)
    else (b, p)

def write (b : BufferedWriter σ) (p : Bytes) : BufferedWriter σ :=
  let r := writeLoop w 2 b p
  if r.1.err then r.1 else { r.1 with buf := r.1.buf ++ r.2.take r.1.available }

def content (b : BufferedWriter σ) : Bytes := w.taken b.sink ++ b.buf

variable {w} {b : BufferedWriter σ} {p all : Bytes}

theorem content_flush (b : BufferedWriter σ) : (b.flush w).content w = b.content w := by
  unfold flush content
  split
  · rfl
  · split
    · rfl
    · dsimp only
      split
      · rw [w.taken_write, List.append_assoc, List.take_append_drop]
      · rename_i hfull
        have hlen : b.buf.length ≤ (w.write b.sink b.buf).2.1 := by
          simp only [Bool.or_eq_true, decide_eq_true_eq, not_or, Nat.not_lt] at hfull
          exact hfull.2
        rw [w.taken_write, List.take_of_length_le hlen, List.append_nil]

theorem buf_flush (h : (b.flush w).err = false) : (b.flush w).buf = [] := by
  unfold flush at h ⊢
  split
  · rename_i herr
    rw [if_pos herr, herr] at h
    cases h
  · rename_i herr
    rw [if_neg herr] at h
    split
    · rename_i hlen
      exact List.length_eq_zero_iff.mp hlen
    · rename_i hlen
      rw [if_neg hlen] at h
      dsimp only at h ⊢
      split
      · rename_i hfail
        rw [if_pos hfail] at h
        cases h
      · rfl

theorem content_writeLoop (rounds : Nat) (b : BufferedWriter σ) (p : Bytes) :
    (writeLoop w rounds b p).1.content w ++ (writeLoop w rounds b p).2 = b.content w ++ p := by
  induction rounds generalizing b p with
  | zero => rfl
  | succ rounds ih =>
    unfold writeLoop
    split
    · split
      · rename_i hempty
        rw [ih]
        simp only [content, w.taken_write, List.length_eq_zero_iff.mp hempty, List.append_nil,
          List.append_assoc, List.take_append_drop]
      · rw [ih, content_flush]
        simp only [content, List.append_assoc, List.take_append_drop]
    · rfl

theorem writeLoop_of_room {rounds : Nat} (h : p.length ≤ b.available ∨ b.err = true) :
    writeLoop w rounds b p = (b, p) := by
  cases rounds with
  | zero => rfl
  | succ rounds =>
    refine if_neg ?_
    rw [Bool.and_eq_true, decide_eq_true_eq, Bool.not_eq_true']
    rintro ⟨hlt, herr⟩
    rcases h with h | h
    · exact Nat.not_lt.mpr h hlt
    · rw [herr] at h
      cases h

theorem room_of_not (h : ¬ (decide (b.available < p.length) && !b.err) = true) :
    b.err = true ∨ p.length ≤ b.available := by
  rw [Bool.and_eq_true, decide_eq_true_eq, Bool.not_eq_true', not_and_or, Nat.not_lt,
    Bool.not_eq_false] at h
  exact h.symm

theorem room_of_empty (rounds : Nat) (h : b.buf = []) :
    (writeLoop w (rounds + 1) b p).1.err = true ∨
    (writeLoop w (rounds + 1) b p).2.length ≤ (writeLoop w (rounds + 1) b p).1.available := by
  rw [writeLoop]
  split
  · rw [if_pos (List.length_eq_zero_iff.mpr h)]
    dsimp only
    by_cases hfail : (w.write b.sink p).2.2 = true
    · rw [writeLoop_of_room (.inr hfail)]
      exact .inl hfail
    · have hall : p.drop (w.write b.sink p).2.1 = [] :=
        List.drop_eq_nil_of_le (Nat.not_lt.mp fun hlt => hfail (w.short _ _ hlt))
      rw [hall, writeLoop_of_room (.inl (Nat.zero_le _))]
      exact .inr (Nat.zero_le _)
  · rename_i hcond
    exact room_of_not hcond

theorem room_writeLoop (b : BufferedWriter σ) (p : Bytes) : (writeLoop w 2 b p).1.err = true ∨
    (writeLoop w 2 b p).2.length ≤ (writeLoop w 2 b p).1.available := by
  by_cases hempty : b.buf = []
  · exact room_of_empty 1 hempty
  · rw [writeLoop]
    split
    · rw [if_neg (List.length_eq_zero_iff.not.mpr hempty)]
      by_cases herr : (flush w { b with buf := b.buf ++ p.take b.available }).err = true
      · rw [writeLoop_of_room (.inr herr)]
        exact .inl herr
      · exact room_of_empty 0 (buf_flush (Bool.not_eq_true _ ▸ herr))
    · rename_i hcond
      exact room_of_not hcond

/-- All that has been written is `all`, of which the writer below has taken a first part; the rest
is buffered unless a call has failed. -/
structure Carries (w : Sink σ) (b : BufferedWriter σ) (all : Bytes) : Prop where
  taken : w.taken b.sink <+: all
  content : b.err = false → b.content w = all

theorem Carries.append_of_err (h : b.Carries w all) (herr : b.err = true) (p : Bytes) :
    b.Carries w (all ++ p) := by
  refine ⟨h.taken.trans (List.prefix_append _ _), fun hno => ?_⟩
  rw [herr] at hno
  cases hno

theorem Carries.write (h : b.Carries w all) (p : Bytes) : (b.write w p).Carries w (all ++ p) := by
  have hcontent := content_writeLoop (w := w) 2 b p
  by_cases herr : b.err = true
  · have hloop : writeLoop w 2 b p = (b, p) := writeLoop_of_room (.inr herr)
    have hwrite : b.write w p = b := by rw [BufferedWriter.write, hloop, if_pos herr]
    rw [hwrite]
    exact h.append_of_err herr p
  · rw [h.content (Bool.not_eq_true _ ▸ herr)] at hcontent
    unfold BufferedWriter.write
    dsimp only
    split
    · rename_i hfail
      refine ⟨?_, fun hno => ?_⟩
      · rw [← hcontent, BufferedWriter.content, List.append_assoc]
        exact List.prefix_append _ _
      · rw [hfail] at hno
        cases hno
    · rename_i hok
      have hroom := (room_writeLoop (w := w) b p).resolve_left hok
      have hall : w.taken (writeLoop w 2 b p).1.sink ++ ((writeLoop w 2 b p).1.buf ++
          (writeLoop w 2 b p).2.take (writeLoop w 2 b p).1.available) = all ++ p := by
        rw [List.take_of_length_le hroom, ← List.append_assoc, ← hcontent]
        rfl
      exact ⟨⟨_, hall⟩, fun _ => hall⟩

theorem Carries.flush (h : b.Carries w all) : (b.flush w).Carries w all := by
  by_cases herr : b.err = true
  · have hflush : b.flush w = b := if_pos herr
    rw [hflush]
    exact h
  · have hcontent : (b.flush w).content w = all :=
      (content_flush b).trans (h.content (Bool.not_eq_true _ ▸ herr))
    exact ⟨⟨_, hcontent⟩, fun _ => hcontent⟩

end BufferedWriter

end Go

import Classwright.ClassFile.Parsed
import Classwright.Proofs.ClassFile.Reading

/-! # Readers that only look ahead

Readers go over their bytes from the front and look no further than they have to. With more bytes such a reader does the
same as before and leaves what was added, unless it had come to the end. So it comes to the end of everything shorter
than what it takes. -/

namespace Classwright

namespace Reader
variable {α β : Type}

/-- Adds bytes to what is left after reading. -/
def extend (rest : Bytes) (x : α × Cursor) : α × Cursor := (x.1, { x.2 with rest := x.2.rest ++ rest })

/-- The reader comes to the end of its bytes, or does the same with more of them. -/
def Sequential (r : Reader α) : Prop :=
  ∀ front rest offset, (∃ n, r ⟨front, offset⟩ = .error (.unexpectedEnd n)) ∨
    r ⟨front ++ rest, offset⟩ = (r ⟨front, offset⟩).map (extend rest)

namespace Sequential

theorem pure (a : α) : Sequential (pure a) := fun _ _ _ => .inr rfl

theorem malformed (cause : Malformation) : Sequential (malformed cause : Reader α) := fun _ _ _ => .inr rfl

theorem offset : Sequential Reader.offset := fun _ _ _ => .inr rfl

theorem ofExcept (x : Except FormatError α) : Sequential (ofExcept x) := by
  intro front rest offset
  cases x with
  | error e => exact .inr rfl
  | ok a => exact .inr rfl

theorem bind {r : Reader α} {k : α → Reader β} (hr : Sequential r) (hk : ∀ a, Sequential (k a)) :
    Sequential (r >>= k) := by
  intro front rest offset
  have hbind : ∀ c, (r >>= k) c = r c >>= fun x => k x.1 x.2 := fun _ => rfl
  rw [hbind, hbind]
  rcases hr front rest offset with ⟨n, hend⟩ | hmore
  · exact .inl ⟨n, by rw [hend]; rfl⟩
  · rw [hmore]
    cases r ⟨front, offset⟩ with
    | error e => exact .inr rfl
    | ok x => exact hk x.1 x.2.rest rest x.2.offset

theorem take (n : Nat) : Sequential (take n) := by
  intro front rest offset
  by_cases hn : n ≤ front.length
  · have hsplit : (front ++ rest).take n = front.take n ∧ (front ++ rest).drop n = front.drop n ++ rest :=
      ⟨List.take_append_of_le_length hn, List.drop_append_of_le_length hn⟩
    have hlength : ¬(front.take n).length < n := by
      rw [List.length_take]
      omega
    right
    simp only [Reader.take, hsplit, if_neg hlength]
    rfl
  · have hlength : (front.take n).length < n := by
      rw [List.length_take]
      omega
    exact .inl ⟨offset, if_pos hlength⟩

theorem word (width : Nat) : Sequential (word width) := .bind (.take width) fun _ => .pure _

theorem u1 : Sequential u1 := .bind (.word 1) fun _ => .pure _

theorem u2 : Sequential u2 := .bind (.word 2) fun _ => .pure _

theorem u4 : Sequential u4 := .word 4

theorem many {item : Reader α} (h : Sequential item) (n : Nat) : Sequential (many item n) := by
  induction n with
  | zero => exact .pure _
  | succ n ih => exact .bind h fun _ => .bind ih fun _ => .pure _

theorem counted {item : Reader α} (h : Sequential item) : Sequential (counted item) := .bind .u2 fun n => h.many n.toNat

/-- More bytes make no difference to a reader that has not come to the end. -/
theorem onBytes_append {r : Reader α} (h : Sequential r) {front : Bytes}
    (hend : ∀ n, r.onBytes front ≠ .error (.unexpectedEnd n)) (rest : Bytes) :
    r.onBytes (front ++ rest) = r.onBytes front := by
  rcases h front rest 0 with ⟨n, hn⟩ | hmore
  · exact absurd (congrArg (Except.map _) hn) (hend n)
  · change (r ⟨front ++ rest, 0⟩).map _ = (r ⟨front, 0⟩).map _
    rw [hmore]
    cases r ⟨front, 0⟩ <;> rfl

/-- Less than the bytes that are read comes to an end too early. -/
theorem unexpectedEnd {r : Reader α} (h : Sequential r) {bytes : Bytes} {a : α} (hreads : r.Reads bytes a) {n : Nat}
    (hn : n < bytes.length) : ∃ offset, r.onBytes (bytes.take n) = .error (.unexpectedEnd offset) := by
  rcases h (bytes.take n) (bytes.drop n) 0 with ⟨offset, hend⟩ | hmore
  · exact ⟨offset, congrArg (Except.map _) hend⟩
  · have hall := hreads [] 0
    rw [List.append_nil, ← List.take_append_drop n bytes, hmore] at hall
    cases hfront : r ⟨bytes.take n, 0⟩ with
    | error e =>
      rw [hfront] at hall
      cases hall
    | ok x =>
      rw [hfront] at hall
      -- the bytes that were added are still there, while reading has left none
      have hleft : x.2.rest ++ bytes.drop n = [] := congrArg (·.2.rest) (Except.ok.inj hall)
      have hdrop := List.drop_eq_nil_iff.mp (List.append_eq_nil_iff.mp hleft).2
      omega

end Sequential

end Reader

/-! ### The readers of a class file -/

open Reader

theorem Constant.sequential_readBody (tag : UInt8) : (readBody tag).Sequential := by
  unfold readBody
  split
  · refine .bind .u2 fun length => .bind (.take length.toNat) fun bytes => ?_
    split
    · exact .pure _
    · exact .malformed _
  · exact .bind (.word 4) fun _ => .pure _
  · exact .bind (.word 4) fun _ => .pure _
  · exact .bind (.word 4) fun _ => .bind (.word 4) fun _ => .pure _
  · exact .bind (.word 4) fun _ => .bind (.word 4) fun _ => .pure _
  · exact .bind .u2 fun _ => .pure _
  · exact .bind .u2 fun _ => .pure _
  · exact .bind .u2 fun _ => .bind .u2 fun _ => .pure _
  · exact .bind .u2 fun _ => .bind .u2 fun _ => .pure _
  · exact .bind .u2 fun _ => .bind .u2 fun _ => .pure _
  · exact .bind .u2 fun _ => .bind .u2 fun _ => .pure _
  · exact .bind (.take 3) fun _ => .pure _
  · exact .bind (.take 2) fun _ => .pure _
  · exact .bind (.take 2) fun _ => .pure _
  · exact .bind (.take 2) fun _ => .pure _
  · exact .bind (.take 4) fun _ => .pure _
  · exact .bind (.take 4) fun _ => .pure _
  · exact .bind .offset fun _ => .malformed _

namespace ConstantPool

theorem sequential_readEntries (count fuel : Nat) (p : ConstantPool) : (readEntries count fuel p).Sequential := by
  induction fuel generalizing p with
  | zero => exact .pure p
  | succ fuel ih =>
    unfold readEntries
    split
    · exact .bind (.bind .u1 Constant.sequential_readBody) fun c => .bind (.ofExcept (p.push c)) fun x => ih x.2
    · exact .pure p

theorem sequential_read : read.Sequential := by
  refine .bind .u2 fun count => ?_
  split
  · exact .malformed _
  · refine .bind (sequential_readEntries _ _ _) fun p => ?_
    split
    · exact .malformed _
    · exact .pure p

variable (p : ConstantPool)

theorem sequential_readUtf8 : p.readUtf8.Sequential := .bind .u2 fun i => .ofExcept (p.utf8At i)

theorem sequential_readClass : p.readClass.Sequential := .bind .u2 fun i => .ofExcept (p.classAt i)

theorem sequential_readClass? : p.readClass?.Sequential := by
  refine .bind .u2 fun i => ?_
  split
  · exact .pure none
  · exact .bind (.ofExcept (p.classAt i)) fun _ => .pure _

end ConstantPool

namespace Parsed

variable (p : ConstantPool)

theorem sequential_readAttributes : (readAttributes p).Sequential :=
  .counted (.bind p.sequential_readUtf8 fun _ => .bind .u4 fun length => .bind (.take length) fun _ => .pure _)

theorem sequential_readField : (readField p).Sequential :=
  .bind .u2 fun _ => .bind p.sequential_readUtf8 fun _ => .bind p.sequential_readUtf8 fun _ =>
    .bind (sequential_readAttributes p) fun _ => .pure _

theorem sequential_readMethod : (readMethod p).Sequential :=
  .bind .u2 fun _ => .bind p.sequential_readUtf8 fun _ => .bind p.sequential_readUtf8 fun _ =>
    .bind (sequential_readAttributes p) fun attributes => .bind (.ofExcept (readMethodCode p attributes)) fun _ => .pure _

theorem sequential_readClassFile : readClassFile.Sequential := by
  refine .bind .u4 fun magic => ?_
  split
  · exact .malformed _
  · exact .bind .u2 fun _ => .bind .u2 fun _ => .bind ConstantPool.sequential_read fun pool => .bind .u2 fun _ =>
      .bind pool.sequential_readClass fun _ => .bind pool.sequential_readClass? fun _ =>
        .bind (.counted pool.sequential_readClass) fun _ => .bind (.counted (sequential_readField pool)) fun _ =>
          .bind (.counted (sequential_readMethod pool)) fun _ => .bind (sequential_readAttributes pool) fun _ => .pure _

end Parsed

end Classwright

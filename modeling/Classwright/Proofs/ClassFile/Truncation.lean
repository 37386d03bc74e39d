import Classwright.Proofs.ClassFile.RoundTrip

/-! # Truncated class files

A class file is read from the front, and reading ends where the file does. So it comes to the end of everything shorter,
given that the sizes in the file are right. -/

namespace Classwright

/-- A class that was written is not read from less than all of its bytes, and what follows them makes no difference. Its
    lists can be counted, and its attributes have sizes that can be written. -/
theorem truncation_detected {c : ClassFile} {b b' : PoolBuilder} {bodies : List Assembled} {bytes : Bytes}
    (hcounted : c.Counted) (hassembled : ClassFile.Assembles b bodies) (h : c.write.on b = (.ok bytes, b'))
    (hsized : c.Sized b') :
    (∀ n < bytes.length, ∃ offset, ParsedClass.parse (bytes.take n) = .error (.unexpectedEnd offset)) ∧
      ∃ p, ParsedClass.parse bytes = .ok p ∧ ∀ rest, ParsedClass.parse (bytes ++ rest) = .ok p := by
  have hvalid := ClassFile.valid_of_write hassembled.sound.1 h
  obtain ⟨p, hreads, -⟩ := ClassFile.reads_written hcounted hvalid h hsized
  exact ⟨fun n hn => Parsed.sequential_readClassFile.unexpectedEnd hreads hn, p, hreads.onBytes, hreads.onBytes_append⟩

theorem truncation_detected_graded : ∃ a b b' bytes p, (grade.assemble gradeHead true).on {} = (.ok a, b) ∧
    (gradedClass a).Counted ∧ (gradedClass a).write.on b = (.ok bytes, b') ∧ (gradedClass a).Sized b' ∧
    0 < bytes.length ∧
    (∀ n < bytes.length, ∃ offset, ParsedClass.parse (bytes.take n) = .error (.unexpectedEnd offset)) ∧
    ParsedClass.parse bytes = .ok p ∧ ∀ rest, ParsedClass.parse (bytes ++ rest) = .ok p := by
  have hok := gradedClass_written
  split at hok
  · rename_i a b ha
    split at hok
    · rename_i bytes b' hbytes
      have hassembled : ClassFile.Assembles b _ := .next .start grade gradeHead true ha
      have hcounted := (fits_gradedClass a).toCounted
      have hsound := (ClassFile.valid_of_write hassembled.sound.1 hbytes).sound
      have hsized := ClassFile.sized_of_length hsound hbytes (of_decide_eq_true hok)
      obtain ⟨hshort, p, hp, hlong⟩ := truncation_detected hcounted hassembled hbytes hsized
      have hsome : 0 < bytes.length := by
        rw [List.length_pos_iff]
        rintro rfl
        cases hp
      exact ⟨a, b, b', bytes, p, ha, hcounted, hbytes, hsized, hsome, hshort, hp, hlong⟩
    · cases hok
  · cases hok

namespace ClassFile

/-- The file of a class with annotations, up to their size of 0. -/
def hugeSevered : Bytes := hugeFront ++ [0, 0, 0, 0, 0, 1, 0, 9, 0, 0, 0, 0]

/-- The annotations of the class come to twice the bytes that can be counted. Their size is written as 0, and the class is
    read without any of them. -/
theorem hugeSevered_readable : (hugeClass [] [hugeMark]).Fits ∧ Assembles {} [] ∧
    ∃ bytes, (hugeClass [] [hugeMark]).write.on {} = (.ok bytes, .after hugeRequests) ∧
      (∃ n < bytes.length, bytes.take n = hugeSevered) ∧ ∃ p, ParsedClass.parse hugeSevered = .ok p := by
  have hwrite : (hugeClass [] [hugeMark]).write.on {} =
      (.ok (hugeSevered ++ hugeContents 7 8), .after hugeRequests) := by
    rw [hugeSevered, List.append_assoc]
    exact write_hugeClass_ofClass annotationsBytes_huge length_hugeContents
  have hread : (ParsedClass.parse hugeSevered).toOption.isSome = true := by decide +kernel
  obtain ⟨p, hp⟩ := Option.isSome_iff_exists.mp hread
  refine ⟨fits_hugeClass ⟨by decide, List.forall_mem_nil _⟩ annotationsFit_huge, .start, _, hwrite,
    ⟨hugeSevered.length, ?_, List.take_left⟩, p, toOption_eq_some.mp hp⟩
  rw [List.length_append, length_hugeContents]
  omega

end ClassFile

end Classwright

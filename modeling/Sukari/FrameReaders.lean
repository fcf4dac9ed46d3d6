import Sukari.Recovery

/-!
# Recovery and replay read the same frames

`readRecordBody` reads a body in one piece, and `scanRecordFrame` runs over it in chunks with a
running checksum. At every offset of every file both report a record and stop behind it, or both
report the end of the data, or both refuse the bytes as invalid (`frameReaders_agree`). So replay
reads what recovery keeps.
-/

set_option autoImplicit false
set_option relaxedAutoImplicit false

namespace Sukari

/-- What the two readers of frames say about a stream that starts at an offset of a file. -/
inductive SameVerdict (bytes : List UInt8) (offset : ℕ) :
    Except IoError (Option (List UInt8 × Stream)) → Except IoError (Option (Unit × Stream)) → Prop
  | record (body : List UInt8) (hbody : body.length ≤ maxRecordBodyLen)
      (hend : offset + (8 + body.length) ≤ bytes.length) :
      SameVerdict bytes offset (.ok (some (body, .seek bytes (offset + (8 + body.length)))))
        (.ok (some ((), .seek bytes (offset + (8 + body.length)))))
  | endOfData : SameVerdict bytes offset (.ok none) (.ok none)
  | invalid {error error' : IoError} (hread : error.kind = .invalidData)
      (hscan : error'.kind = .invalidData) : SameVerdict bytes offset (.error error) (.error error')

/-- At every offset of every file the two readers of frames agree. -/
theorem frameReaders_agree (bytes : List UInt8) (offset : ℕ) : SameVerdict bytes offset
    (readRecordBody (.seek bytes offset)) (scanRecordFrame (.seek bytes offset)) := by
  rw [scanRecordFrame_eq]
  cases hread : readRecordBody (.seek bytes offset) with
  | error error =>
    have hkind := onlyInvalid_readRecordBody _ error hread
    exact .invalid hkind hkind
  | ok found =>
    cases found with
    | none => exact .endOfData
    | some found =>
      obtain ⟨body, stream⟩ := found
      obtain ⟨hlen, rfl, hlimit⟩ := skip_of_readRecordBody hread
      simp only [Stream.seek, List.length_drop] at hlen
      have hend : offset + (8 + body.length) ≤ bytes.length := by omega
      have hstop : (Stream.seek bytes offset).skip (8 + body.length) =
          .seek bytes (offset + (8 + body.length)) := by
        simp only [Stream.seek, Stream.skip, List.drop_drop]
      rw [hstop]
      exact .record body hlimit hend

end Sukari

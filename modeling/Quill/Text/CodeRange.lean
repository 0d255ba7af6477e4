/-!
# Ranges of code points

A character property is a list of ranges in ascending order, so the search may stop at the first
range that begins after the character.

## Main definitions

* `inRanges ranges c` — `c` lies in one of the ranges.
-/

namespace Quill.Text

/-- Is the code point in one of the ascending ranges? Both ends of a range belong to it. -/
def codeInRanges : List (Nat × Nat) → Nat → Bool
  | [], _ => false
  | (first, last) :: ranges, code =>
    if code < first then false else if code ≤ last then true else codeInRanges ranges code

/-- Is the character in one of the ascending ranges? -/
def inRanges (ranges : List (Nat × Nat)) (c : Char) : Bool :=
  codeInRanges ranges c.toNat

theorem codeInRanges_sound {ranges : List (Nat × Nat)} {code : Nat}
    (h : codeInRanges ranges code = true) : ∃ r ∈ ranges, r.1 ≤ code ∧ code ≤ r.2 := by
  induction ranges with
  | nil => simp [codeInRanges] at h
  | cons r rs ih =>
    obtain ⟨first, last⟩ := r
    simp only [codeInRanges] at h
    split at h
    · simp at h
    · split at h
      · exact ⟨(first, last), by simp, by omega, by omega⟩
      · obtain ⟨r, hr, hle⟩ := ih h
        exact ⟨r, List.mem_cons_of_mem _ hr, hle⟩

end Quill.Text

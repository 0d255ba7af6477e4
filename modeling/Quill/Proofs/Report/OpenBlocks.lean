import Mathlib.Data.Finset.Card
import Mathlib.Data.List.Nodup
import Mathlib.Order.Interval.Finset.Nat
import Quill.Proofs.Text.Place
import Quill.Report.Lookahead

/-!
# Open blocks by balance

The scan for open blocks keeps a stack of opening braces and lets a closing brace without an open
one pass. What is on the stack in the end can be told from the text alone: the opening braces behind
which, up to no place, more braces are closed than opened. A comment hides its braces, and hides
from every place of its line.

## Main definitions

* `InComment cs p` — the place `p` of a text lies in a comment.
* `Stands cs ch p` — a character stands at a place outside comments.
* `standingBetween cs ch o m` — how often a character stands outside comments between two places.
-/

namespace Quill.Report

open Text

/-! ## Comments -/

/-- A place lies in a comment: two strokes stand at it or before it, and no line feed from there up
to it. -/
def InComment (cs : List Char) (p : Nat) : Prop :=
  ∃ q ≤ p, cs[q]? = some '/' ∧ cs[q + 1]? = some '/' ∧ ∀ i ≤ p, q ≤ i → cs[i]? ≠ some '\n'

/-- A character stands at a place, and no comment hides it. -/
def Stands (cs : List Char) (ch : Char) (p : Nat) : Prop := cs[p]? = some ch ∧ ¬ InComment cs p

/-- A character stands at a place, and the text has a line feed before it. -/
def StandsBehindBreak (cs : List Char) (ch : Char) (p : Nat) : Prop :=
  Stands cs ch p ∧ ∃ i < p, cs[i]? = some '\n'

instance (cs : List Char) (p : Nat) : Decidable (InComment cs p) :=
  inferInstanceAs (Decidable (∃ q ≤ p, _))

instance (cs : List Char) (ch : Char) (p : Nat) : Decidable (Stands cs ch p) :=
  inferInstanceAs (Decidable (_ ∧ _))

instance (cs : List Char) (ch : Char) (p : Nat) : Decidable (StandsBehindBreak cs ch p) :=
  inferInstanceAs (Decidable (_ ∧ _))

/-- How often a character stands outside comments strictly between two places. -/
def standingBetween (cs : List Char) (ch : Char) (o m : Nat) : Nat :=
  ((Finset.Ioo o m).filter (Stands cs ch)).card

/-- The first character of a text is hidden only if a comment begins with it. -/
theorem inComment_zero_iff {c : Char} {cs : List Char} :
    InComment (c :: cs) 0 ↔ c = '/' ∧ cs.head? = some '/' := by
  constructor
  · rintro ⟨q, hq, h₁, h₂, -⟩
    obtain rfl : q = 0 := Nat.le_zero.1 hq
    exact ⟨by simpa using h₁, by simpa [List.head?_eq_getElem?] using h₂⟩
  · rintro ⟨rfl, hhead⟩
    refine ⟨0, Nat.le_refl _, rfl, by simpa [List.head?_eq_getElem?] using hhead, ?_⟩
    intro i hi _
    obtain rfl : i = 0 := Nat.le_zero.1 hi
    simp

/-- A character in front of a text hides a place there by beginning a comment that comes so far. -/
theorem inComment_succ_iff {c : Char} {cs : List Char} {p : Nat} :
    InComment (c :: cs) (p + 1) ↔ InComment cs p ∨
      (c = '/' ∧ cs.head? = some '/') ∧ ∀ i ≤ p, cs[i]? ≠ some '\n' := by
  constructor
  · rintro ⟨q, hq, h₁, h₂, hline⟩
    cases q with
    | zero =>
      refine .inr ⟨⟨by simpa using h₁, by simpa [List.head?_eq_getElem?] using h₂⟩, ?_⟩
      intro i hi
      simpa using hline (i + 1) (Nat.succ_le_succ hi) (Nat.zero_le _)
    | succ q =>
      refine .inl ⟨q, Nat.le_of_succ_le_succ hq, by simpa using h₁, by simpa using h₂, ?_⟩
      intro i hi hqi
      simpa using hline (i + 1) (Nat.succ_le_succ hi) (Nat.succ_le_succ hqi)
  · rintro (⟨q, hq, h₁, h₂, hline⟩ | ⟨⟨rfl, hhead⟩, hline⟩)
    · refine ⟨q + 1, Nat.succ_le_succ hq, h₁, h₂, ?_⟩
      rintro (_ | i) hi hqi
      · cases hqi
      · exact hline i (Nat.le_of_succ_le_succ hi) (Nat.le_of_succ_le_succ hqi)
    · refine ⟨0, Nat.zero_le _, rfl, by simpa [List.head?_eq_getElem?] using hhead, ?_⟩
      rintro (_ | i) hi -
      · simp
      · exact hline i (Nat.le_of_succ_le_succ hi)

theorem stands_zero_iff {c ch : Char} {cs : List Char} (hch : ch ≠ '/') :
    Stands (c :: cs) ch 0 ↔ c = ch := by
  rw [Stands, inComment_zero_iff, List.getElem?_cons_zero, Option.some.injEq, and_iff_left_iff_imp]
  rintro rfl ⟨hstroke, -⟩
  exact hch hstroke

/-- Behind the two strokes of a comment, a character stands only behind the next line feed. -/
theorem stands_succ_iff {c ch : Char} {cs : List Char} {p : Nat} (hch : ch ≠ '\n') :
    Stands (c :: cs) ch (p + 1) ↔ Stands cs ch p ∧
      (c = '/' ∧ cs.head? = some '/' → ∃ i < p, cs[i]? = some '\n') := by
  rw [Stands, Stands, inComment_succ_iff, List.getElem?_cons_succ, not_or, and_assoc, and_assoc]
  refine and_congr_right fun hp => and_congr_right fun _ => ?_
  rw [← and_assoc, not_and]
  refine imp_congr_right fun _ => ?_
  push Not
  refine ⟨fun ⟨i, hi, hbreak⟩ => ⟨i, ?_, hbreak⟩, fun ⟨i, hi, hbreak⟩ => ⟨i, hi.le, hbreak⟩⟩
  refine Nat.lt_of_le_of_ne hi ?_
  rintro rfl
  rw [hp, Option.some.injEq] at hbreak
  exact hch hbreak

/-- Cutting a text off moves no character that comes before the cut in or out of a comment. -/
theorem stands_take_iff {cs : List Char} {ch : Char} {n p : Nat} (hch : ch ≠ '/') :
    Stands (cs.take n) ch p ↔ p < n ∧ Stands cs ch p := by
  rcases Nat.lt_or_ge p n with hp | hp
  · have hget : ∀ i ≤ p, (cs.take n)[i]? = cs[i]? :=
      fun i hi => List.getElem?_take_of_lt (Nat.lt_of_le_of_lt hi hp)
    rw [and_iff_right hp, Stands, Stands, hget p (Nat.le_refl p)]
    refine and_congr_right fun hstands => not_congr (exists_congr fun q => ?_)
    refine and_congr_right fun hq => ?_
    rw [hget q hq]
    refine and_congr_right fun hstroke => ?_
    have hlt : q < p := by
      refine Nat.lt_of_le_of_ne hq ?_
      rintro rfl
      rw [hstands, Option.some.injEq] at hstroke
      exact hch hstroke
    rw [hget (q + 1) hlt]
    exact and_congr_right fun _ => forall₂_congr fun i hi => by rw [hget i hi]
  · refine iff_of_false ?_ fun h => Nat.not_lt.2 hp h.1
    rintro ⟨hstands, -⟩
    rw [List.getElem?_eq_none (Nat.le_trans (List.length_take_le n cs) hp)] at hstands
    cases hstands

/-- Where a closing brace is replaced by a blank, every other character stands as before. -/
theorem stands_set_iff {cs : List Char} {ch : Char} {p i : Nat} (hp : cs[p]? = some '\x7d')
    (hch : ch ≠ ' ') : Stands (cs.set p ' ') ch i ↔ i ≠ p ∧ Stands cs ch i := by
  have hget : ∀ {x : Char} {j : Nat}, x ≠ ' ' →
      ((cs.set p ' ')[j]? = some x ↔ j ≠ p ∧ cs[j]? = some x) := by
    intro x j hx
    by_cases hj : j = p
    · subst hj
      obtain ⟨hlength, -⟩ := List.getElem?_eq_some_iff.1 hp
      simp [List.getElem?_set_self hlength, Ne.symm hx]
    · rw [List.getElem?_set_ne (Ne.symm hj), and_iff_right hj]
  have hkept : ∀ {x : Char} {j : Nat}, x ≠ ' ' → x ≠ '\x7d' →
      ((cs.set p ' ')[j]? = some x ↔ cs[j]? = some x) := by
    intro x j hx hclose
    rw [hget hx, and_iff_right_iff_imp]
    rintro hj rfl
    rw [hp, Option.some.injEq] at hj
    exact hclose hj.symm
  have hstroke := fun j => hkept (x := '/') (j := j) (by decide) (by decide)
  have hbreak := fun j => hkept (x := '\n') (j := j) (by decide) (by decide)
  rw [Stands, Stands, hget hch, and_assoc]
  simp only [InComment, hstroke, ne_eq, hbreak]

/-! ## Braces -/

/-- An opening or a closing brace. -/
def IsBrace (ch : Char) : Prop := ch = '\x7b' ∨ ch = '\x7d'

instance (ch : Char) : Decidable (IsBrace ch) := inferInstanceAs (Decidable (_ ∨ _))

theorem IsBrace.ne_stroke {ch : Char} (h : IsBrace ch) : ch ≠ '/' := by
  rcases h with rfl | rfl <;> decide

theorem IsBrace.ne_break {ch : Char} (h : IsBrace ch) : ch ≠ '\n' := by
  rcases h with rfl | rfl <;> decide

/-- The braces of a text for which `P` holds. Their places are counted from `k` on, but from zero
for `P`. -/
def bracesWith (P : Char → Nat → Prop) [∀ ch p, Decidable (P ch p)] (k : Nat) (cs : List Char) :
    List (Char × Nat) :=
  (cs.zipIdx k).filter fun b => IsBrace b.1 ∧ P b.1 (b.2 - k)

section BracesWith

variable {P Q : Char → Nat → Prop} [∀ ch p, Decidable (P ch p)] [∀ ch p, Decidable (Q ch p)]

/-- If `P` says of a place what `Q` says of the one before it, the braces behind the first character
are those for which `Q` holds there. -/
theorem bracesWith_cons (h : ∀ ch p, IsBrace ch → (P ch (p + 1) ↔ Q ch p)) (k : Nat) (c : Char)
    (cs : List Char) : bracesWith P k (c :: cs) =
      if IsBrace c ∧ P c 0 then (c, k) :: bracesWith Q (k + 1) cs else bracesWith Q (k + 1) cs := by
  have hbehind : (cs.zipIdx (k + 1)).filter (fun b => IsBrace b.1 ∧ P b.1 (b.2 - k)) =
      bracesWith Q (k + 1) cs := by
    refine List.filter_congr fun b hb => decide_eq_decide.2 (and_congr_right fun hbrace => ?_)
    have hle : k + 1 ≤ b.2 := List.le_snd_of_mem_zipIdx hb
    have hplace : b.2 - k = b.2 - (k + 1) + 1 := by omega
    rw [hplace, h b.1 _ hbrace]
  rw [bracesWith, List.zipIdx_cons, List.filter_cons, Nat.sub_self, hbehind]
  simp only [decide_eq_true_eq]

end BracesWith

section Standing

variable {c : Char} {cs : List Char}

theorem bracesWith_stands_comment (h : c = '/' ∧ cs.head? = some '/') (k : Nat) :
    bracesWith (Stands (c :: cs)) k (c :: cs) = bracesWith (StandsBehindBreak cs) (k + 1) cs := by
  have hsucc : ∀ ch p, IsBrace ch → (Stands (c :: cs) ch (p + 1) ↔ StandsBehindBreak cs ch p) := by
    intro ch p hch
    rw [stands_succ_iff hch.ne_break, imp_iff_right h, StandsBehindBreak]
  rw [bracesWith_cons hsucc, if_neg fun hc => hc.1.ne_stroke h.1]

theorem bracesWith_stands_cons (h : ¬ (c = '/' ∧ cs.head? = some '/')) (k : Nat) :
    bracesWith (Stands (c :: cs)) k (c :: cs) =
      if IsBrace c then (c, k) :: bracesWith (Stands cs) (k + 1) cs
      else bracesWith (Stands cs) (k + 1) cs := by
  have hsucc : ∀ ch p, IsBrace ch → (Stands (c :: cs) ch (p + 1) ↔ Stands cs ch p) := by
    intro ch p hch
    rw [stands_succ_iff hch.ne_break, and_iff_left fun hc => absurd hc h]
  have hfirst : IsBrace c ∧ Stands (c :: cs) c 0 ↔ IsBrace c :=
    and_iff_left_of_imp fun hc => (stands_zero_iff hc.ne_stroke).2 rfl
  rw [bracesWith_cons hsucc]
  simp only [hfirst]

/-- Behind a line feed, all that stands stands behind one. -/
theorem bracesWith_standsBehindBreak_break (k : Nat) :
    bracesWith (StandsBehindBreak ('\n' :: cs)) k ('\n' :: cs) =
      bracesWith (Stands cs) (k + 1) cs := by
  have hsucc : ∀ ch p, IsBrace ch →
      (StandsBehindBreak ('\n' :: cs) ch (p + 1) ↔ Stands cs ch p) := by
    intro ch p hch
    rw [StandsBehindBreak, stands_succ_iff hch.ne_break, and_assoc, and_iff_left_iff_imp]
    exact fun _ => ⟨fun h => absurd h.1 (by decide), 0, Nat.succ_pos p, rfl⟩
  rw [bracesWith_cons hsucc, if_neg fun hc => absurd hc.1 (by decide)]

theorem bracesWith_standsBehindBreak_cons (hc : c ≠ '\n') (k : Nat) :
    bracesWith (StandsBehindBreak (c :: cs)) k (c :: cs) =
      bracesWith (StandsBehindBreak cs) (k + 1) cs := by
  have hsucc : ∀ ch p, IsBrace ch →
      (StandsBehindBreak (c :: cs) ch (p + 1) ↔ StandsBehindBreak cs ch p) := by
    intro ch p hch
    have hbreak : (∃ i < p + 1, (c :: cs)[i]? = some '\n') ↔ ∃ i < p, cs[i]? = some '\n' := by
      rw [← Nat.or_exists_add_one]
      simp [hc]
    rw [StandsBehindBreak, StandsBehindBreak, stands_succ_iff hch.ne_break, hbreak, and_assoc]
    exact and_congr_right fun _ => and_iff_right_of_imp fun h _ => h
  have hfirst : ¬ (IsBrace c ∧ StandsBehindBreak (c :: cs) c 0) := by
    rintro ⟨-, -, i, hi, -⟩
    exact Nat.not_lt_zero i hi
  rw [bracesWith_cons hsucc, if_neg hfirst]

end Standing

/-- The scan finds the braces that stand outside comments, in order. In a comment it finds those of
them that stand behind the next line feed. -/
theorem braces_eq_bracesWith (k : Nat) (cs : List Char) :
    braces k cs = bracesWith (Stands cs) k cs ∧
      braces.bracesInComment k cs = bracesWith (StandsBehindBreak cs) k cs := by
  induction cs generalizing k with
  | nil => exact ⟨rfl, rfl⟩
  | cons c cs ih =>
    obtain ⟨hbraces, hcomment⟩ := ih (k + 1)
    refine ⟨?_, ?_⟩
    · unfold braces
      split
      · rename_i hstrokes
        rw [hcomment, bracesWith_stands_comment hstrokes]
      · rename_i hstrokes
        rw [hbraces, bracesWith_stands_cons hstrokes]
        rfl
    · unfold braces.bracesInComment
      split
      · rename_i hbreak
        rw [hbraces, hbreak, bracesWith_standsBehindBreak_break]
      · rename_i hbreak
        rw [hcomment, bracesWith_standsBehindBreak_cons hbreak]

/-- The braces that are found are those that stand outside of comments. -/
theorem mem_braces_iff {cs : List Char} {ch : Char} {o : Nat} :
    (ch, o) ∈ braces 0 cs ↔ IsBrace ch ∧ Stands cs ch o := by
  rw [(braces_eq_bracesWith 0 cs).1, bracesWith, List.mem_filter, decide_eq_true_iff, Nat.sub_zero,
    List.mk_mem_zipIdx_iff_getElem?]
  exact and_iff_right_of_imp fun h => h.2.1

/-- The braces of a text are found at increasing places. -/
theorem pairwise_braces (cs : List Char) : (braces 0 cs).Pairwise fun b b' => b.2 < b'.2 := by
  rw [(braces_eq_bracesWith 0 cs).1]
  refine List.Pairwise.filter _ ?_
  have h := List.pairwise_lt_range' (s := 0) (n := cs.length)
  rw [← List.zipIdx_map_snd, List.pairwise_map] at h
  exact h

/-! ## The stack -/

/-- How often a character is among some braces before a place. -/
def tally (ch : Char) (m : Nat) (bs : List (Char × Nat)) : Nat :=
  bs.countP fun b => b.1 = ch ∧ b.2 < m

/-- A block with `k` blocks open inside it is not closed by some braces: up to no place are there
more closing braces among them than opening ones and `k`. -/
def Survives (k : Nat) (bs : List (Char × Nat)) : Prop :=
  ∀ m, tally '\x7d' m bs ≤ tally '\x7b' m bs + k

@[simp] theorem tally_nil (ch : Char) (m : Nat) : tally ch m [] = 0 := rfl

section Stack

variable {k n : Nat} {bs : List (Char × Nat)}

theorem tally_cons_self (ch : Char) (m n : Nat) (bs : List (Char × Nat)) :
    tally ch m ((ch, n) :: bs) = tally ch m bs + if n < m then 1 else 0 := by
  simp [tally, List.countP_cons]

theorem tally_cons_of_ne {ch ch' : Char} (h : ch' ≠ ch) (m n : Nat) (bs : List (Char × Nat)) :
    tally ch m ((ch', n) :: bs) = tally ch m bs := by
  simp [tally, h]

/-- Nothing is counted up to the first of the braces. -/
theorem tally_eq_zero {m : Nat} (ch : Char) (hm : m ≤ n + 1) (hbs : ∀ b ∈ bs, n < b.2) :
    tally ch m bs = 0 := by
  refine List.countP_eq_zero.2 fun b hb => ?_
  have hlt := hbs b hb
  simp only [decide_eq_true_eq, not_and]
  omega

/-- A block that opens counts as one more that is open inside. -/
theorem survives_open_iff (hbs : ∀ b ∈ bs, n < b.2) :
    Survives k (('\x7b', n) :: bs) ↔ Survives (k + 1) bs := by
  refine forall_congr' fun m => ?_
  rw [tally_cons_of_ne (by decide), tally_cons_self]
  split
  · rw [Nat.add_assoc, Nat.add_comm 1 k]
  · have hm : m ≤ n + 1 := by omega
    simp only [tally_eq_zero _ hm hbs, Nat.zero_le]

/-- A closing brace closes one of the blocks that are open inside. -/
theorem survives_close_iff (hbs : ∀ b ∈ bs, n < b.2) :
    Survives (k + 1) (('\x7d', n) :: bs) ↔ Survives k bs := by
  refine forall_congr' fun m => ?_
  rw [tally_cons_self, tally_cons_of_ne (by decide)]
  split
  · rw [← Nat.add_assoc, Nat.add_le_add_iff_right]
  · have hm : m ≤ n + 1 := by omega
    simp only [tally_eq_zero _ hm hbs, Nat.add_zero, Nat.zero_le]

/-- A closing brace closes a block that has none open inside. -/
theorem not_survives_close (hbs : ∀ b ∈ bs, n < b.2) : ¬ Survives 0 (('\x7d', n) :: bs) := by
  intro h
  have hnext := h (n + 1)
  rw [tally_cons_self, if_pos (Nat.lt_succ_self n), tally_cons_of_ne (by decide),
    tally_eq_zero _ (Nat.le_refl _) hbs, tally_eq_zero _ (Nat.le_refl _) hbs] at hnext
  omega

/-- A block that some braces open is opened by the first of them or by those behind it. -/
theorem opensSurvivor_cons_iff {ch : Char} {o : Nat} :
    (∃ before after, (ch, n) :: bs = before ++ ('\x7b', o) :: after ∧ Survives 0 after) ↔
      ((ch, n) = ('\x7b', o) ∧ Survives 0 bs) ∨
        ∃ before after, bs = before ++ ('\x7b', o) :: after ∧ Survives 0 after := by
  constructor
  · rintro ⟨_ | ⟨b, before⟩, after, heq, hafter⟩
    · obtain ⟨hb, rfl⟩ := List.cons.inj heq
      exact .inl ⟨hb, hafter⟩
    · exact .inr ⟨before, after, (List.cons.inj heq).2, hafter⟩
  · rintro (⟨hb, hafter⟩ | ⟨before, after, rfl, hafter⟩)
    · exact ⟨[], bs, by rw [hb]; rfl, hafter⟩
    · exact ⟨(ch, n) :: before, after, rfl, hafter⟩

end Stack

/-- The scan leaves on the stack the blocks there that survive the braces, and the blocks that the
braces open and that survive those behind. -/
theorem mem_openAfter_iff {stack : List Nat} {bs : List (Char × Nat)} {o : Nat}
    (hbs : ∀ b ∈ bs, IsBrace b.1) (hpairwise : bs.Pairwise fun b b' => b.2 < b'.2) :
    o ∈ openAfter stack bs ↔ (∃ k, stack[k]? = some o ∧ Survives k bs) ∨
      ∃ before after, bs = before ++ ('\x7b', o) :: after ∧ Survives 0 after := by
  induction bs generalizing stack with
  | nil =>
    have hnil : ∀ k, Survives k [] := fun k m => by rw [tally_nil]; exact Nat.zero_le _
    simp [openAfter, List.mem_iff_getElem?, hnil]
  | cons b bs ih =>
    obtain ⟨ch, n⟩ := b
    rw [List.forall_mem_cons] at hbs
    rw [List.pairwise_cons] at hpairwise
    obtain ⟨hbehind, hpairwise⟩ := hpairwise
    rw [opensSurvivor_cons_iff, ← or_assoc]
    rcases hbs.1 with hch | hch <;> obtain rfl : ch = _ := hch
    · have hpush : openAfter stack (('\x7b', n) :: bs) = openAfter (n :: stack) bs := rfl
      rw [hpush, ih hbs.2 hpairwise]
      refine or_congr_left ?_
      simp only [survives_open_iff hbehind]
      rw [← Nat.or_exists_add_one, or_comm]
      simp
    · have hpop : openAfter stack (('\x7d', n) :: bs) = openAfter stack.tail bs := rfl
      rw [hpop, ih hbs.2 hpairwise]
      refine or_congr_left ?_
      rw [← Nat.or_exists_add_one (p := fun k => stack[k]? = some o ∧ _)]
      simp [survives_close_iff hbehind, not_survives_close hbehind]

/-- What is on the stack in the end was there before, or comes from the braces, later ones first. -/
theorem openAfter_sublist (stack : List Nat) (bs : List (Char × Nat)) :
    (openAfter stack bs).Sublist ((bs.map Prod.snd).reverse ++ stack) := by
  induction bs generalizing stack with
  | nil => exact List.Sublist.refl _
  | cons b bs ih =>
    rw [openAfter, List.map_cons, List.reverse_cons, List.append_assoc, List.singleton_append]
    split
    · exact ih (b.2 :: stack)
    · refine (ih stack.tail).trans (List.Sublist.append_left ?_ _)
      exact (List.tail_sublist stack).trans (List.sublist_cons_self _ _)

/-! ## Balance -/

variable {cs : List Char} {ch : Char} {o m n p : Nat}

theorem Stands.lt_length (h : Stands cs ch p) : p < cs.length :=
  (List.getElem?_eq_some_iff.1 h.1).1

/-- Behind the end of a text nothing more is counted. -/
theorem standingBetween_of_length_le (hn : cs.length ≤ n) (hm : n ≤ m) :
    standingBetween cs ch o m = standingBetween cs ch o n := by
  refine congrArg Finset.card (Finset.ext fun p => ?_)
  simp only [Finset.mem_filter, Finset.mem_Ioo, and_assoc]
  refine and_congr_right fun _ => and_congr_left fun hstands => ?_
  have hlt := hstands.lt_length
  omega

/-- Behind an opening brace the scan finds the braces that stand behind its place. -/
theorem mem_behind_iff {before after : List (Char × Nat)}
    (h : braces 0 cs = before ++ ('\x7b', o) :: after) (hch : IsBrace ch) :
    (ch, p) ∈ after ↔ o < p ∧ Stands cs ch p := by
  have hpairwise := pairwise_braces cs
  rw [h, List.pairwise_append, List.pairwise_cons] at hpairwise
  obtain ⟨-, ⟨hbehind, -⟩, hbefore⟩ := hpairwise
  have hbraces : (ch, p) ∈ braces 0 cs ↔ Stands cs ch p := by
    rw [mem_braces_iff, and_iff_right hch]
  rw [← hbraces, h, List.mem_append, List.mem_cons]
  constructor
  · exact fun hp => ⟨hbehind _ hp, .inr (.inr hp)⟩
  · rintro ⟨hop, hp | hp | hp⟩
    · have hlt := hbefore _ hp _ List.mem_cons_self
      exact absurd hop (Nat.lt_asymm hlt)
    · rw [Prod.mk.injEq] at hp
      exact absurd hop (Nat.not_lt_of_ge (Nat.le_of_eq hp.2))
    · exact hp

/-- The braces behind an opening one are counted by the places where they stand. -/
theorem tally_eq_standingBetween {before after : List (Char × Nat)}
    (h : braces 0 cs = before ++ ('\x7b', o) :: after) (hch : IsBrace ch) (m : Nat) :
    tally ch m after = standingBetween cs ch o m := by
  have hafter : after.Sublist (braces 0 cs) := by
    rw [h]
    exact (List.sublist_cons_self _ _).trans (List.sublist_append_right _ _)
  have hnodup : ((after.filter fun b => b.1 = ch ∧ b.2 < m).map Prod.snd).Nodup := by
    rw [List.Nodup, List.pairwise_map]
    exact (((pairwise_braces cs).sublist hafter).filter _).imp Nat.ne_of_lt
  rw [tally, List.countP_eq_length_filter, ← List.length_map Prod.snd,
    ← List.toFinset_card_of_nodup hnodup]
  refine congrArg Finset.card (Finset.ext fun p => ?_)
  simp only [List.mem_toFinset, List.mem_map, List.mem_filter, decide_eq_true_eq, Prod.exists,
    exists_eq_right, Finset.mem_filter, Finset.mem_Ioo]
  constructor
  · rintro ⟨_, hp, rfl, hpm⟩
    obtain ⟨hop, hstands⟩ := (mem_behind_iff h hch).1 hp
    exact ⟨⟨hop, hpm⟩, hstands⟩
  · rintro ⟨⟨hop, hpm⟩, hstands⟩
    exact ⟨ch, (mem_behind_iff h hch).2 ⟨hop, hstands⟩, rfl, hpm⟩

/-- A block that a text opens is open at the end if between its brace and no place behind it more
braces are closed than opened. -/
theorem survives_iff_standingBetween_le {before after : List (Char × Nat)}
    (h : braces 0 cs = before ++ ('\x7b', o) :: after) (hn : cs.length ≤ n) :
    Survives 0 after ↔ ∀ m, o < m → m ≤ n →
      standingBetween cs '\x7d' o m ≤ standingBetween cs '\x7b' o m := by
  have hopens : ∀ m, tally '\x7b' m after = standingBetween cs '\x7b' o m :=
    tally_eq_standingBetween h (.inl rfl)
  have hcloses : ∀ m, tally '\x7d' m after = standingBetween cs '\x7d' o m :=
    tally_eq_standingBetween h (.inr rfl)
  simp only [Survives, hopens, hcloses, Nat.add_zero]
  refine ⟨fun hall m _ _ => hall m, fun hall m => ?_⟩
  have hon : o < n := by
    have hmem : ('\x7b', o) ∈ braces 0 cs := by simp [h]
    exact Nat.lt_of_lt_of_le (mem_braces_iff.1 hmem).2.lt_length hn
  rcases Nat.lt_or_ge o m with hom | hmo
  · rcases Nat.le_total m n with hmn | hnm
    · exact hall m hom hmn
    · rw [standingBetween_of_length_le hn hnm, standingBetween_of_length_le hn hnm]
      exact hall n hon (Nat.le_refl n)
  · rw [standingBetween, Finset.Ioo_eq_empty (Nat.not_lt.2 hmo)]
    exact Nat.zero_le _

/-- A brace is open exactly if from it on, up to any later place, no more braces close than open. -/
theorem mem_openBraces_iff (hn : cs.length ≤ n) :
    o ∈ openBraces cs ↔ Stands cs '\x7b' o ∧ ∀ m, o < m → m ≤ n →
      standingBetween cs '\x7d' o m ≤ standingBetween cs '\x7b' o m := by
  have hbrace : ∀ b ∈ braces 0 cs, IsBrace b.1 := fun b hb => (mem_braces_iff.1 hb).1
  rw [openBraces, List.mem_reverse, mem_openAfter_iff hbrace (pairwise_braces cs)]
  simp only [List.getElem?_nil, reduceCtorEq, false_and, exists_false, false_or]
  constructor
  · rintro ⟨before, after, hbraces, hsurvives⟩
    have hmem : ('\x7b', o) ∈ braces 0 cs := by simp [hbraces]
    exact ⟨(mem_braces_iff.1 hmem).2, (survives_iff_standingBetween_le hbraces hn).1 hsurvives⟩
  · rintro ⟨hstands, hbalance⟩
    obtain ⟨before, after, hbraces⟩ :=
      List.append_of_mem (mem_braces_iff.2 ⟨.inl rfl, hstands⟩)
    exact ⟨before, after, hbraces, (survives_iff_standingBetween_le hbraces hn).2 hbalance⟩

/-- Open braces are listed in the order of the text. -/
theorem pairwise_openBraces (cs : List Char) : (openBraces cs).Pairwise (· < ·) := by
  rw [openBraces, List.pairwise_reverse]
  refine List.Pairwise.sublist (openAfter_sublist [] (braces 0 cs)) ?_
  rw [List.append_nil, List.pairwise_reverse, List.pairwise_map]
  exact pairwise_braces cs

theorem standingBetween_take (hch : ch ≠ '/') (hm : m ≤ n) :
    standingBetween (cs.take n) ch o m = standingBetween cs ch o m := by
  refine congrArg Finset.card (Finset.ext fun p => ?_)
  simp only [Finset.mem_filter, Finset.mem_Ioo, stands_take_iff hch]
  refine and_congr_right fun hp => and_iff_right ?_
  exact Nat.lt_of_lt_of_le hp.2 hm

/-- The text up to the place decides which blocks are open there, and what it counts is counted in
the whole text. -/
theorem mem_openBlocks_iff :
    o ∈ openBlocks cs n ↔ o < n ∧ Stands cs '\x7b' o ∧ ∀ m, o < m → m ≤ n →
      standingBetween cs '\x7d' o m ≤ standingBetween cs '\x7b' o m := by
  rw [openBlocks, upTo_natCast, mem_openBraces_iff (List.length_take_le n cs),
    stands_take_iff (by decide), and_assoc]
  refine and_congr_right fun _ => and_congr_right fun _ => forall_congr' fun m => ?_
  refine imp_congr_right fun _ => forall_congr' fun hm => ?_
  rw [standingBetween_take (by decide) hm, standingBetween_take (by decide) hm]

/-- A block that is open at a place was open at every place before, up to its brace. -/
theorem mem_openBlocks_of_le (h : o ∈ openBlocks cs n) (ho : o < m) (hm : m ≤ n) :
    o ∈ openBlocks cs m := by
  rw [mem_openBlocks_iff] at h ⊢
  obtain ⟨-, hstands, hbalance⟩ := h
  exact ⟨ho, hstands, fun m' hlt hle => hbalance m' hlt (Nat.le_trans hle hm)⟩

/-- What is counted behind a place does not depend on a brace up to it. -/
theorem standingBetween_set (hp : cs[p]? = some '\x7d') (hch : ch ≠ ' ') (hpo : p ≤ o) :
    standingBetween (cs.set p ' ') ch o m = standingBetween cs ch o m := by
  refine congrArg Finset.card (Finset.ext fun i => ?_)
  simp only [Finset.mem_filter, Finset.mem_Ioo, stands_set_iff hp hch]
  refine and_congr_right fun hi => and_iff_right ?_
  omega

/-- A closing brace where no block is open may as well be missing. -/
theorem openBlocks_set (hp : Stands cs '\x7d' p) (hpn : p < n) (hnone : openBlocks cs p = []) :
    openBlocks (cs.set p ' ') n = openBlocks cs n := by
  have hnone' : openBlocks (cs.set p ' ') p = [] := by
    rw [← hnone, openBlocks, openBlocks, upTo_natCast, upTo_natCast,
      List.take_set_of_le (Nat.le_refl p)]
  refine List.Pairwise.eq_of_mem_iff (pairwise_openBraces _) (pairwise_openBraces _) fun o => ?_
  rcases Nat.lt_trichotomy o p with hop | rfl | hpo
  · have hbefore : ∀ ds, openBlocks ds p = [] → o ∉ openBlocks ds n := by
      intro ds hds ho
      have hmem := mem_openBlocks_of_le ho hop hpn.le
      rw [hds] at hmem
      cases hmem
    exact iff_of_false (hbefore _ hnone') (hbefore _ hnone)
  · have hbrace : ¬ Stands cs '\x7b' o := by
      intro h
      rw [Stands, hp.1] at h
      exact absurd h.1 (by decide)
    rw [mem_openBlocks_iff, mem_openBlocks_iff, stands_set_iff hp.1 (by decide)]
    simp only [hbrace, false_and, and_false]
  · rw [mem_openBlocks_iff, mem_openBlocks_iff, stands_set_iff hp.1 (by decide),
      and_iff_right (Nat.ne_of_gt hpo)]
    have hcount : ∀ ch m, ch ≠ ' ' →
        standingBetween (cs.set p ' ') ch o m = standingBetween cs ch o m :=
      fun ch m hch => standingBetween_set hp.1 hch hpo.le
    simp only [hcount _ _ (show '\x7b' ≠ ' ' by decide), hcount _ _ (show '\x7d' ≠ ' ' by decide)]

/-- The blocks open at a place come in order, and are those opening braces of the text up to it
behind which, up to no place, more braces are closed than opened. A closing brace where no block is
open changes nothing. -/
theorem openBlocks_balance (cs : List Char) (n : Nat) :
    (openBlocks cs n).Pairwise (· < ·) ∧
      (∀ o, o ∈ openBlocks cs n ↔ o < n ∧ Stands (cs.take n) '\x7b' o ∧ ∀ m, o < m → m ≤ n →
        standingBetween (cs.take n) '\x7d' o m ≤ standingBetween (cs.take n) '\x7b' o m) ∧
      ∀ p < n, Stands (cs.take n) '\x7d' p → openBlocks cs p = [] →
        openBlocks (cs.set p ' ') n = openBlocks cs n := by
  refine ⟨pairwise_openBraces _, fun o => ?_, fun p hpn hp hnone => ?_⟩
  · rw [openBlocks, upTo_natCast, mem_openBraces_iff (List.length_take_le n cs)]
    refine (and_iff_right_of_imp fun h => ?_).symm
    exact Nat.lt_of_lt_of_le h.1.lt_length (List.length_take_le n cs)
  · exact openBlocks_set ((stands_take_iff (by decide)).1 hp).2 hpn hnone

/-- Two closing braces without a block stand in front of a block that is left open, one that is
closed, and a comment with a brace. -/
theorem openBlocks_balance_ragged :
    Stands ("\x7d\x7d\x7b\x7b\x7d //\x7b\n\x7d".toList.take 9) '\x7d' 1 ∧
      openBlocks "\x7d\x7d\x7b\x7b\x7d //\x7b\n\x7d".toList 1 = [] ∧
      openBlocks "\x7d\x7d\x7b\x7b\x7d //\x7b\n\x7d".toList 9 = [2] ∧
      openBlocks ("\x7d\x7d\x7b\x7b\x7d //\x7b\n\x7d".toList.set 1 ' ') 9 = [2] := by
  have hstands : Stands ("\x7d\x7d\x7b\x7b\x7d //\x7b\n\x7d".toList.take 9) '\x7d' 1 := by decide
  have hnone : openBlocks "\x7d\x7d\x7b\x7b\x7d //\x7b\n\x7d".toList 1 = [] := by decide
  have hopen : openBlocks "\x7d\x7d\x7b\x7b\x7d //\x7b\n\x7d".toList 9 = [2] := by decide
  obtain ⟨-, -, hsurplus⟩ := openBlocks_balance "\x7d\x7d\x7b\x7b\x7d //\x7b\n\x7d".toList 9
  exact ⟨hstands, hnone, hopen, (hsurplus 1 (by decide) hstands hnone).trans hopen⟩

end Quill.Report

import Mathlib.Data.List.Induction
import Mathlib.Data.List.Pairwise
import Mathlib.Data.List.Perm.Subperm
import Mathlib.Data.List.Sort
import TableLexer.Proofs.Symbol
import TableLexer.SymbolRange

/-! Collapsing symbols gives the fewest ranges that cover just these symbols, and no others are as few. -/
namespace TableLexer

namespace SymbolRange

variable {r r' block : SymbolRange} {ranges acc other : List SymbolRange} {symbols more : List Symbol} {s t : Symbol}

theorem contains_iff : r.contains s = true ↔ r.first ≤ s ∧ s ≤ r.last := by
  rw [contains, Bool.and_eq_true, decide_eq_true_iff, decide_eq_true_iff]

theorem isEmpty_eq_false_iff : r.isEmpty = false ↔ r.first ≤ r.last := by
  rw [isEmpty, decide_eq_false_iff_not, not_lt]

private theorem mem_symbols : s ∈ r.symbols ↔ r.contains s = true := by
  rw [SymbolRange.symbols, List.mem_filter]
  exact and_iff_right (Symbol.mem_all s)

/-- A range that is not empty is known by what it contains. -/
private theorem eq_of_contains_iff (hr : r.isEmpty = false) (h : ∀ s, r.contains s = true ↔ r'.contains s = true) :
    r = r' := by
  have hle := isEmpty_eq_false_iff.1 hr
  have hfirst := contains_iff.1 ((h r.first).1 (contains_iff.2 ⟨le_refl _, hle⟩))
  have hlast := contains_iff.1 ((h r.last).1 (contains_iff.2 ⟨hle, le_refl _⟩))
  have hle' : r'.first ≤ r'.last := hfirst.1.trans hfirst.2
  have hfirst' := contains_iff.1 ((h r'.first).2 (contains_iff.2 ⟨le_refl _, hle'⟩))
  have hlast' := contains_iff.1 ((h r'.last).2 (contains_iff.2 ⟨hle', le_refl _⟩))
  cases r
  cases r'
  rw [mk.injEq]
  exact ⟨le_antisymm hfirst'.1 hfirst.1, le_antisymm hlast.2 hlast'.2⟩

/-- Of an ascending list in which symbols may be repeated, erasing repetitions leaves each symbol once. -/
private theorem eraseReps_loop {last : Symbol} {rest taken : List Symbol} (hrest : (last :: rest).Pairwise (· ≤ ·))
    (htaken : (taken.reverse ++ [last]).Pairwise (· < ·)) :
    (List.eraseRepsBy.loop (· == ·) last rest taken).Pairwise (· < ·) ∧
      ∀ s, s ∈ List.eraseRepsBy.loop (· == ·) last rest taken ↔ s ∈ taken ∨ s ∈ last :: rest := by
  induction rest generalizing last taken with
  | nil =>
    rw [List.eraseRepsBy.loop, List.reverse_cons]
    exact ⟨htaken, fun s => by simp [or_comm]⟩
  | cons next rest ih =>
    obtain ⟨hle, htail⟩ := List.pairwise_cons.1 hrest
    rw [List.eraseRepsBy.loop]
    split
    · next heq =>
      obtain rfl : last = next := eq_of_beq heq
      obtain ⟨hascending, hmem⟩ := ih htail htaken
      exact ⟨hascending, fun s => (hmem s).trans (by simp)⟩
    · next hne =>
      have hlt : last < next := lt_of_le_of_ne (hle next List.mem_cons_self) (by simpa using hne)
      have hnext : ((last :: taken).reverse ++ [next]).Pairwise (· < ·) := by
        rw [List.reverse_cons, List.pairwise_append]
        refine ⟨htaken, List.pairwise_singleton _ _, fun s hs t ht => ?_⟩
        obtain rfl := List.mem_singleton.1 ht
        rcases List.mem_append.1 hs with hs | hs
        · exact ((List.pairwise_append.1 htaken).2.2 s hs last (List.mem_singleton_self _)).trans hlt
        · rwa [List.mem_singleton.1 hs]
      obtain ⟨hascending, hmem⟩ := ih htail hnext
      exact ⟨hascending, fun s => (hmem s).trans (by simp [or_assoc, or_left_comm])⟩

private theorem sorted_spec (symbols : List Symbol) :
    (sorted symbols).Pairwise (· < ·) ∧ ∀ s, s ∈ sorted symbols ↔ s ∈ symbols := by
  have hmem (s : Symbol) : s ∈ symbols.mergeSort (· ≤ ·) ↔ s ∈ symbols := List.mem_mergeSort
  have hle := List.pairwise_mergeSort' (· ≤ ·) symbols
  simp only [sorted, List.eraseReps, ← hmem]
  cases h : symbols.mergeSort (· ≤ ·) with
  | nil => simp [List.eraseRepsBy]
  | cons s rest =>
    rw [h] at hle
    obtain ⟨hascending, hiff⟩ := eraseReps_loop hle (List.pairwise_singleton _ _ : ([].reverse ++ [s]).Pairwise _)
    exact ⟨hascending, fun t => (hiff t).trans (by simp)⟩

private theorem sorted_congr (h : ∀ s, s ∈ more ↔ s ∈ symbols) : sorted more = sorted symbols := by
  obtain ⟨hascending, hmem⟩ := sorted_spec symbols
  obtain ⟨hascending', hmem'⟩ := sorted_spec more
  exact hascending'.eq_of_mem_iff hascending fun s => ((hmem' s).trans (h s)).trans (hmem s).symm

/-- What a symbol does to ranges that are listed from the last one on. -/
private theorem extend_cases (ranges : List SymbolRange) (s : Symbol) :
    (∃ r earlier, ranges = r :: earlier ∧ r.last.val + 1 = s.val ∧ extend ranges s = { r with last := s } :: earlier) ∨
      (∀ r ∈ ranges.head?, r.last.val + 1 ≠ s.val) ∧ extend ranges s = single s :: ranges := by
  cases ranges with
  | nil => exact .inr ⟨by simp, rfl⟩
  | cons r earlier =>
    by_cases hnext : r.last.val + 1 = s.val
    · exact .inl ⟨r, earlier, rfl, hnext, if_pos hnext⟩
    · exact .inr ⟨by simpa using hnext, if_neg hnext⟩

/-- Ranges cover symbols if they contain these and no others. -/
def Covers (ranges : List SymbolRange) (symbols : List Symbol) : Prop :=
  ∀ s, (∃ r ∈ ranges, r.contains s = true) ↔ s ∈ symbols

namespace Covers

private theorem mem_of_contains (h : Covers ranges symbols) (hr : r ∈ ranges) (hs : r.contains s = true) :
    s ∈ symbols :=
  (h s).1 ⟨r, hr, hs⟩

theorem congr (h : Covers ranges symbols) (hmore : ∀ s, s ∈ more ↔ s ∈ symbols) : Covers ranges more :=
  fun s => (h s).trans (hmore s).symm

theorem reverse_iff : Covers ranges.reverse symbols ↔ Covers ranges symbols := by
  simp only [Covers, List.mem_reverse]

/-- One more symbol is covered, and nothing else. -/
private theorem extend (h : Covers ranges symbols) (hnonempty : ∀ r ∈ ranges, r.isEmpty = false) (s : Symbol) :
    Covers (SymbolRange.extend ranges s) (symbols ++ [s]) := by
  intro t
  rw [List.mem_append, List.mem_singleton, ← h t]
  rcases extend_cases ranges s with ⟨r, earlier, rfl, hnext, heq⟩ | ⟨-, heq⟩ <;> rw [heq]
  · have hle := isEmpty_eq_false_iff.1 (hnonempty r List.mem_cons_self)
    have hgrown : ({ r with last := s } : SymbolRange).contains t = true ↔ r.contains t = true ∨ t = s := by
      rw [contains_iff, contains_iff, Fin.ext_iff]
      simp only [Fin.le_def] at hle ⊢
      omega
    simp only [List.exists_mem_cons_iff, hgrown]
    exact or_right_comm
  · have hsingle : (single s).contains t = true ↔ t = s := by
      rw [contains_iff, single, ← le_antisymm_iff, eq_comm]
    simp only [List.exists_mem_cons_iff, hsingle]
    exact or_comm

end Covers

/-- One range ends, and another one begins, with a symbol between them that is missing. -/
def Gap (symbols : List Symbol) (r r' : SymbolRange) : Prop :=
  ∃ missing, r.last < missing ∧ missing < r'.first ∧ missing ∉ symbols

/-- A range of nothing but the symbols does not reach across a gap. -/
private theorem not_gap (hblock : ∀ s, block.contains s = true → s ∈ symbols) (hs : r.contains s = true)
    (ht : r'.contains t = true) (hs' : block.contains s = true) (ht' : block.contains t = true) :
    ¬Gap symbols r r' := by
  rintro ⟨missing, hlow, hhigh, hmissing⟩
  have hfirst : block.first ≤ missing := ((contains_iff.1 hs').1.trans (contains_iff.1 hs).2).trans hlow.le
  have hlast : missing ≤ block.last := hhigh.le.trans ((contains_iff.1 ht).1.trans (contains_iff.1 ht').2)
  exact hmissing (hblock missing (contains_iff.2 ⟨hfirst, hlast⟩))

/-- What it means that symbols are divided at their gaps: ranges cover them of which none is empty, and which ascend
with a gap between any two of them. -/
structure Divides (ranges : List SymbolRange) (symbols : List Symbol) : Prop where
  covers : Covers ranges symbols
  nonempty : ∀ r ∈ ranges, r.isEmpty = false
  apart : ranges.Pairwise (Gap symbols)

namespace Divides

theorem congr (h : Divides ranges symbols) (hmore : ∀ s, s ∈ more ↔ s ∈ symbols) : Divides ranges more where
  covers := h.covers.congr hmore
  nonempty := h.nonempty
  apart := h.apart.imp fun ⟨missing, hlow, hhigh, hmissing⟩ =>
    ⟨missing, hlow, hhigh, fun hmem => hmissing ((hmore missing).1 hmem)⟩

private theorem first_le_last (h : Divides ranges symbols) (hr : r ∈ ranges) : r.first ≤ r.last :=
  isEmpty_eq_false_iff.1 (h.nonempty r hr)

private theorem contains_first (h : Divides ranges symbols) (hr : r ∈ ranges) : r.contains r.first = true :=
  contains_iff.2 ⟨le_refl _, h.first_le_last hr⟩

private theorem first_mem (h : Divides ranges symbols) (hr : r ∈ ranges) : r.first ∈ symbols :=
  h.covers.mem_of_contains hr (h.contains_first hr)

private theorem last_mem (h : Divides ranges symbols) (hr : r ∈ ranges) : r.last ∈ symbols :=
  h.covers.mem_of_contains hr (contains_iff.2 ⟨h.first_le_last hr, le_refl _⟩)

private theorem of_descending (hcovers : Covers acc symbols) (hnonempty : ∀ r ∈ acc, r.isEmpty = false)
    (hapart : acc.Pairwise fun r r' => Gap symbols r' r) : Divides acc.reverse symbols where
  covers := Covers.reverse_iff.2 hcovers
  nonempty r hr := hnonempty r (List.mem_reverse.1 hr)
  apart := List.pairwise_reverse.2 hapart

/-- The greatest symbol is where the last range ends. -/
private theorem le_last (h : Divides acc.reverse symbols) (hr : r ∈ acc.head?) (ht : t ∈ symbols) : t ≤ r.last := by
  obtain ⟨earlier, rfl⟩ : ∃ earlier, acc = r :: earlier := List.head?_eq_some_iff.1 hr
  obtain ⟨r', hr', hcontains⟩ := (Covers.reverse_iff.1 h.covers t).2 ht
  rcases List.mem_cons.1 hr' with rfl | hr'
  · exact (contains_iff.1 hcontains).2
  · obtain ⟨missing, hlow, hhigh, -⟩ := (List.pairwise_cons.1 (List.pairwise_reverse.1 h.apart)).1 r' hr'
    have hle := h.first_le_last (List.mem_reverse.2 List.mem_cons_self)
    exact (contains_iff.1 hcontains).2.trans ((hlow.trans hhigh).le.trans hle)

/-- If a symbol behind the last range is not next to it, then the symbol that is next to it is missing. -/
private theorem gap_single (h : Divides acc.reverse symbols) (hs : ∀ t ∈ symbols, t < s)
    (hfar : ∀ r ∈ acc.head?, r.last.val + 1 ≠ s.val) (hr : r ∈ acc) : Gap symbols r (single s) := by
  obtain ⟨latest, hlatest⟩ : ∃ latest, acc.head? = some latest :=
    Option.isSome_iff_exists.1 (List.isSome_head?.2 (List.ne_nil_of_mem hr))
  have hlt : latest.last < s := hs latest.last (h.last_mem (List.mem_reverse.2 (List.mem_of_head? hlatest)))
  have hbehind : latest.last.val + 1 < s.val := lt_of_le_of_ne hlt (hfar latest hlatest)
  have hle : r.last ≤ latest.last := h.le_last hlatest (h.last_mem (List.mem_reverse.2 hr))
  refine ⟨⟨latest.last.val + 1, hbehind.trans s.isLt⟩, Nat.lt_succ_of_le hle, hbehind, fun hmem => ?_⟩
  exact Nat.not_succ_le_self _ (h.le_last hlatest hmem)

/-- With one more symbol behind the others, the symbols are still divided. -/
theorem extend (h : Divides acc.reverse symbols) (hs : ∀ t ∈ symbols, t < s) :
    Divides (SymbolRange.extend acc s).reverse (symbols ++ [s]) := by
  have hnonempty : ∀ r ∈ acc, r.isEmpty = false := fun r hr => h.nonempty r (List.mem_reverse.2 hr)
  have hfirst (r : SymbolRange) (hr : r ∈ acc) : r.first < s := hs r.first (h.first_mem (List.mem_reverse.2 hr))
  have hcovers := (Covers.reverse_iff.1 h.covers).extend hnonempty s
  -- A gap before the new symbol stays one.
  have hgap {r r' : SymbolRange} (hle : r'.first ≤ s) : Gap symbols r r' → Gap (symbols ++ [s]) r r' :=
    fun ⟨missing, hlow, hhigh, hmissing⟩ => ⟨missing, hlow, hhigh, by simp [hmissing, (hhigh.trans_le hle).ne]⟩
  have hapart : acc.Pairwise fun r r' => Gap (symbols ++ [s]) r' r :=
    (List.pairwise_reverse.1 h.apart).imp_of_mem fun hr _ => hgap (hfirst _ hr).le
  rcases extend_cases acc s with ⟨r, earlier, rfl, -, heq⟩ | ⟨hfar, heq⟩
  · rw [heq] at hcovers ⊢
    have hgrown : isEmpty { r with last := s } = false := isEmpty_eq_false_iff.2 (hfirst r List.mem_cons_self).le
    -- The gap before a range does not depend on where the range ends.
    exact of_descending hcovers (List.forall_mem_cons.2 ⟨hgrown, (List.forall_mem_cons.1 hnonempty).2⟩)
      (List.pairwise_cons.2 (List.pairwise_cons.1 hapart))
  · rw [heq] at hcovers ⊢
    have hsingle : (single s).isEmpty = false := isEmpty_eq_false_iff.2 (le_refl s)
    exact of_descending hcovers (List.forall_mem_cons.2 ⟨hsingle, hnonempty⟩)
      (List.pairwise_cons.2 ⟨fun r hr => hgap (le_refl s) (h.gap_single hs hfar hr), hapart⟩)

private theorem foldl_extend (h : symbols.Pairwise (· < ·)) :
    Divides (symbols.foldl SymbolRange.extend []).reverse symbols := by
  induction symbols using List.reverseRecOn with
  | nil => exact ⟨fun s => by simp, by simp, .nil⟩
  | append_singleton symbols s ih =>
    obtain ⟨hascending, -, hbehind⟩ := List.pairwise_append.1 h
    rw [List.foldl_append]
    exact (ih hascending).extend fun t ht => hbehind t ht s (List.mem_singleton_self s)

theorem collapse (symbols : List Symbol) : Divides (SymbolRange.collapse symbols) symbols := by
  obtain ⟨hascending, hmem⟩ := sorted_spec symbols
  exact (foldl_extend hascending).congr fun s => (hmem s).symm

/-- The ranges that a range of nothing but the symbols meets are one. -/
private theorem eq_of_meets (h : Divides ranges symbols) (hblock : ∀ s, block.contains s = true → s ∈ symbols)
    (hr : r ∈ ranges) (hr' : r' ∈ ranges) (hs : r.contains s = true) (ht : r'.contains t = true)
    (hs' : block.contains s = true) (ht' : block.contains t = true) : r = r' := by
  by_contra hne
  have : Std.Symm fun r r' => Gap symbols r r' ∨ Gap symbols r' r := ⟨fun _ _ => Or.symm⟩
  have hgaps := (h.apart.imp (S := fun r r' => Gap symbols r r' ∨ Gap symbols r' r) .inl).forall hr hr' hne
  rcases hgaps with hgap | hgap
  · exact not_gap hblock hs ht hs' ht' hgap
  · exact not_gap hblock ht hs ht' hs' hgap

private theorem eq_of_contains (h : Divides ranges symbols) (hr : r ∈ ranges) (hr' : r' ∈ ranges)
    (hs : r.contains s = true) (hs' : r'.contains s = true) : r = r' :=
  h.eq_of_meets (fun _ => h.covers.mem_of_contains hr) hr hr' hs hs' hs hs

section Chosen

variable {chosen : SymbolRange → SymbolRange}

/-- From ranges that cover the symbols, different ones contain the first symbols of the divided ranges. -/
private theorem subperm_chosen (h : Divides ranges symbols) (hother : Covers other symbols)
    (hchosen : ∀ r ∈ ranges, chosen r ∈ other ∧ (chosen r).contains r.first = true) :
    (ranges.map chosen).Subperm other := by
  refine List.subperm_of_subset (List.pairwise_map.2 (h.apart.imp_of_mem fun {r r'} hr hr' hgap heq => ?_)) ?_
  · obtain ⟨hmem, hfirst⟩ := hchosen r hr
    have hfirst' := (hchosen r' hr').2
    rw [← heq] at hfirst'
    exact not_gap (fun s => hother.mem_of_contains hmem) (h.contains_first hr) (h.contains_first hr') hfirst hfirst' hgap
  · exact List.forall_mem_map.2 fun r hr => (hchosen r hr).1

/-- If there are no more of them, they are the divided ranges themselves. -/
private theorem chosen_eq (h : Divides ranges symbols) (hother : Covers other symbols)
    (hchosen : ∀ r ∈ ranges, chosen r ∈ other ∧ (chosen r).contains r.first = true)
    (hperm : (ranges.map chosen).Perm other) (hr : r ∈ ranges) : chosen r = r := by
  have hinside {r : SymbolRange} (hr : r ∈ ranges) {t : Symbol} (ht : (chosen r).contains t = true) :
      r.contains t = true := by
    obtain ⟨hmem, hfirst⟩ := hchosen r hr
    obtain ⟨r', hr', ht'⟩ := (h.covers t).2 (hother.mem_of_contains hmem ht)
    rwa [h.eq_of_meets (fun _ => hother.mem_of_contains hmem) hr hr' (h.contains_first hr) ht' hfirst ht]
  refine (eq_of_contains_iff (h.nonempty r hr) fun t => ⟨fun ht => ?_, hinside hr⟩).symm
  obtain ⟨block, hblock, ht'⟩ := (hother t).2 (h.covers.mem_of_contains hr ht)
  obtain ⟨r', hr', rfl⟩ := List.mem_map.1 (hperm.mem_iff.2 hblock)
  rwa [h.eq_of_contains hr hr' ht (hinside hr' ht')]

end Chosen

/-- Ranges that cover the symbols are at least as many as the divided ones, and if they are as many, they are these. -/
theorem fewest (h : Divides ranges symbols) (hother : Covers other symbols) :
    ranges.length ≤ other.length ∧ (other.length = ranges.length → other.Perm ranges) := by
  have hexists (r : SymbolRange) (hr : r ∈ ranges) : ∃ block ∈ other, block.contains r.first = true :=
    (hother r.first).2 (h.first_mem hr)
  choose! chosen hchosen using hexists
  have hsubperm := h.subperm_chosen hother hchosen
  refine ⟨by simpa using hsubperm.length_le, fun hlength => ?_⟩
  have hperm := hsubperm.perm_of_length_le (by simp [hlength])
  have hsame : ranges.map chosen = ranges :=
    (List.map_congr_left fun r hr => h.chosen_eq hother hchosen hperm hr).trans (List.map_id ranges)
  rw [hsame] at hperm
  exact hperm.symm

end Divides

/-- Collapsing divides the symbols at their gaps. No ranges that cover just the symbols are fewer, and those that are
as few are the same. The ranges depend on nothing but the set of the symbols, and collapsing what they
contain gives them again. -/
theorem collapse_fewest (symbols : List Symbol) : Divides (collapse symbols) symbols ∧
    (∀ ranges, Covers ranges symbols → (collapse symbols).length ≤ ranges.length ∧
      (ranges.length = (collapse symbols).length → ranges.Perm (collapse symbols))) ∧
    (∀ more : List Symbol, (∀ s, s ∈ more ↔ s ∈ symbols) → collapse more = collapse symbols) ∧
    collapse ((collapse symbols).flatMap SymbolRange.symbols) = collapse symbols := by
  have hdivides := Divides.collapse symbols
  have hcongr (more : List Symbol) (hmore : ∀ s, s ∈ more ↔ s ∈ symbols) : collapse more = collapse symbols := by
    rw [collapse, sorted_congr hmore, ← collapse]
  refine ⟨hdivides, fun _ hcovers => hdivides.fewest hcovers, hcongr, hcongr _ fun s => ?_⟩
  simp only [List.mem_flatMap, mem_symbols]
  exact hdivides.covers s

example : collapse [255, 7, 254, 5, 7] = [⟨5, 5⟩, ⟨7, 7⟩, ⟨254, 255⟩] := by cbv

end SymbolRange

end TableLexer

import TableLexer.Automaton.Subset
import TableLexer.Proofs.Automaton.Deterministic
import TableLexer.Proofs.Outcome
import TableLexer.Proofs.Symbol

/-! The subset construction finds, for every word, the set of states that the automaton can be in
after it, and keeps the terminal that such a set accepts. -/
namespace TableLexer

namespace Automaton

variable {a : Automaton} {set : StateSet} {s : Symbol}

/-- Whatever closure has been computed is the one that computing it again would give. -/
def Remembered (a : Automaton) (known : Closures) : Prop :=
  ∀ id set, known[id]? = some (some set) → set = a.epsilonClosure (.ofList a.size [id])

theorem remembered_replicate (a : Automaton) (n : Nat) : a.Remembered (Array.replicate n none) := by
  intro id set h
  rw [Array.getElem?_replicate] at h
  split at h <;> simp at h

theorem closureOf_spec {known : Closures} (hknown : a.Remembered known) (id : StateId) :
    (a.closureOf known id).1 = a.epsilonClosure (.ofList a.size [id]) ∧
      a.Remembered (a.closureOf known id).2 := by
  unfold closureOf
  split
  · next set h => exact ⟨hknown id set h, hknown⟩
  · refine ⟨rfl, fun j set h => ?_⟩
    rw [Array.getElem?_setIfInBounds] at h
    split at h
    · next hj =>
      split at h
      · obtain rfl := Option.some.inj (Option.some.inj h)
        rw [hj]
      · simp at h
    · exact hknown j set h

private theorem mem_closureOf (h : a.EpsilonInBounds) {known : Closures} (hknown : a.Remembered known)
    {p q : StateId} (hp : p < a.size) :
    q ∈ (a.closureOf known p).1 ↔ Path a.Edge p [] q := by
  rw [(closureOf_spec hknown p).1, h.mem_epsilonClosure (StateSet.over_ofList ..)]
  simp [StateSet.mem_ofList, hp]

private theorem foldl_closureOf (h : a.EpsilonInBounds) {ids : List StateId}
    (hids : ∀ p ∈ ids, p < a.size) (work : StateSet × Closures) (hset : work.1.Over a.size)
    (hknown : a.Remembered work.2) :
    let work' := ids.foldl
      (fun (set, known) id => (set.union (a.closureOf known id).1, (a.closureOf known id).2)) work
    work'.1.Over a.size ∧ a.Remembered work'.2 ∧
      ∀ q, q ∈ work'.1 ↔ q ∈ work.1 ∨ ∃ p ∈ ids, Path a.Edge p [] q := by
  induction ids generalizing work with
  | nil => exact ⟨hset, hknown, fun q => by simp⟩
  | cons p ids ih =>
    obtain ⟨heq, hknown'⟩ := closureOf_spec hknown p
    have hone : (a.closureOf work.2 p).1.Over a.size :=
      heq ▸ over_epsilonClosure (StateSet.over_ofList ..)
    obtain ⟨hover, hrem, hmem⟩ := ih (fun q hq => hids q (List.mem_cons_of_mem p hq))
      (work.1.union (a.closureOf work.2 p).1, (a.closureOf work.2 p).2) (hset.union hone) hknown'
    refine ⟨hover, hrem, fun q => ?_⟩
    rw [List.foldl_cons, hmem, hset.mem_union hone, mem_closureOf h hknown (hids p List.mem_cons_self)]
    simp only [List.mem_cons, exists_eq_or_imp, or_assoc]

/-- The closure put together from remembered ones holds what epsilon edges lead to. -/
theorem closure_spec (h : a.EpsilonInBounds) {known : Closures} (hknown : a.Remembered known)
    {ids : List StateId} (hids : ∀ p ∈ ids, p < a.size) :
    (a.closure known ids).1 = a.epsilonClosure (.ofList a.size ids) ∧
      a.Remembered (a.closure known ids).2 := by
  obtain ⟨hover, hrem, hmem⟩ := foldl_closureOf h hids (.withCapacity a.size, known)
    (StateSet.over_withCapacity a.size) hknown
  refine ⟨hover.ext (over_epsilonClosure (StateSet.over_ofList ..)) fun q => ?_, hrem⟩
  refine (hmem q).trans ?_
  rw [h.mem_epsilonClosure (StateSet.over_ofList ..)]
  simp only [StateSet.not_mem_withCapacity, false_or, StateSet.mem_ofList]
  exact exists_congr fun p => and_congr_left fun _ => ⟨fun hp => ⟨hp, hids p hp⟩, And.left⟩

/-- The closure of the initial state is the start. -/
private theorem closure_initial (ha : a.WellFormed) : ∃ known,
    a.closure (Array.replicate a.size none) [a.initial] = (a.start, known) ∧ a.Remembered known := by
  have hids : ∀ q ∈ [a.initial], q < a.size := List.forall_mem_singleton.2 ha.initial_lt
  obtain ⟨hstart, hrem⟩ := closure_spec ha.epsilonInBounds (a.remembered_replicate a.size) hids
  exact ⟨_, Prod.ext hstart rfl, hrem⟩

private theorem size_foldl_modify (edges : List (Symbol × StateId)) (table : Array (List StateId)) :
    (edges.foldl (fun table (s, target) => table.modify s.val (target :: ·)) table).size = table.size := by
  induction edges generalizing table with
  | nil => rfl
  | cons edge edges ih => simp [ih]

private theorem mem_foldl_modify {edges : List (Symbol × StateId)} {table : Array (List StateId)}
    (hsize : table.size = 256) {q : StateId} :
    q ∈ (edges.foldl (fun table (s, target) => table.modify s.val (target :: ·)) table).getD s.val [] ↔
      q ∈ table.getD s.val [] ∨ (s, q) ∈ edges := by
  induction edges generalizing table with
  | nil => simp
  | cons edge edges ih =>
    obtain ⟨t, target⟩ := edge
    have hs : s.val < table.size := by rw [hsize]; exact s.isLt
    rw [List.foldl_cons, ih (by simpa using hsize)]
    simp only [Array.getD_eq_getD_getElem?, Array.getElem?_modify, List.mem_cons, Prod.mk.injEq,
      Array.getElem?_eq_getElem hs]
    by_cases ht : t = s
    · subst ht
      simp [or_assoc, or_left_comm]
    · have hval : t.val ≠ s.val := fun he => ht (Fin.ext he)
      simp [hval, Ne.symm ht]

private theorem mem_foldl_targets (h : a.WellFormed) {ids : List StateId}
    {table : Array (List StateId)} (hsize : table.size = 256) {q : StateId} :
    q ∈ (ids.foldl
      (fun table id => (((a.state? id).map (·.transitions)).getD []).foldl
        (fun table (s, target) => table.modify s.val (target :: ·)) table) table).getD s.val [] ↔
      q ∈ table.getD s.val [] ∨ ∃ p ∈ ids, a.Edge p (some s) q := by
  induction ids generalizing table with
  | nil => simp
  | cons p ids ih =>
    rw [List.foldl_cons, ih (by rw [size_foldl_modify]; exact hsize), mem_foldl_modify hsize]
    have hedge : (s, q) ∈ ((a.state? p).map (·.transitions)).getD [] ↔ a.Edge p (some s) q := by
      rw [edge_some, transition?]
      cases hp : a.state? p with
      | none => simp
      | some state => exact (h.sound p state hp).ascending.lookup_eq_some_iff.symm
    simp only [hedge, List.mem_cons, exists_eq_or_imp, or_assoc]

/-- The targets on a symbol are those of the edges that leave the set on it. -/
theorem mem_targets (h : a.WellFormed) {q : StateId} :
    q ∈ (a.targets set).getD s.val [] ↔ ∃ p ∈ set, a.Edge p (some s) q := by
  rw [targets, mem_foldl_targets h (by simp)]
  simp [StateSet.mem_toList, Array.getD_eq_getD_getElem?]

/-- The closure of the targets on a symbol is the set that the symbol leads to. -/
theorem closure_targets (h : a.WellFormed) {known : Closures} (hknown : a.Remembered known)
    (set : StateSet) (s : Symbol) :
    (a.closure known ((a.targets set).getD s.val [])).1 = a.step set s ∧
      a.Remembered (a.closure known ((a.targets set).getD s.val [])).2 := by
  have hids : ∀ q ∈ (a.targets set).getD s.val [], q < a.size := fun q hq => by
    obtain ⟨p, _, edge⟩ := (mem_targets h).1 hq
    exact h.edge_lt edge
  obtain ⟨hclosure, hrem⟩ := closure_spec h.epsilonInBounds hknown hids
  refine ⟨?_, hrem⟩
  rw [hclosure, step]
  congr 1
  refine (StateSet.over_ofList ..).ext (StateSet.over_ofList ..) fun q => ?_
  simp only [StateSet.mem_ofList, mem_targets h, List.mem_filterMap, StateSet.mem_toList, edge_some]

/-- What has been discovered so far: the subsets are sets over the states, they have their numbers
by their words, and there are no more of them than the state limit allows. -/
structure Discovery.Valid (a : Automaton) (d : Discovery) : Prop where
  bounded : ∀ (i : StateId) set, d.subsets[i]? = some set → set.Over a.size
  numbered : ∀ words (i : StateId), d.numbers[words]? = some i ↔
    ∃ set, d.subsets[i]? = some set ∧ set.words = words
  remembered : a.Remembered d.closures
  size_le : d.subsets.size ≤ max 1 a.config.stateLimit

theorem Discovery.Valid.remember {d : Discovery} (hd : d.Valid a) {known : Closures}
    (hknown : a.Remembered known) : Discovery.Valid a { d with closures := known } where
  bounded := hd.bounded
  numbered := hd.numbered
  remembered := hknown
  size_le := hd.size_le

/-- Subsets keep their numbers. -/
def Discovery.Extends (d d' : Discovery) : Prop :=
  ∀ (i : StateId) set, d.subsets[i]? = some set → d'.subsets[i]? = some set

theorem Discovery.Extends.refl (d : Discovery) : d.Extends d := fun _ _ h => h

theorem Discovery.Extends.trans {d d' d'' : Discovery} (h : d.Extends d') (h' : d'.Extends d'') :
    d.Extends d'' := fun i set hset => h' i set (h i set hset)

/-- A discovery with one more subset, which gets the next number. -/
def Discovery.found (d : Discovery) (set : StateSet) : Discovery :=
  { d with
    subsets := d.subsets.push set
    numbers := d.numbers.insert set.words d.subsets.size }

theorem run_numberOf (a : Automaton) (set : StateSet) (d : Discovery) :
    (a.numberOf set).run d =
      match d.numbers[set.words]? with
      | some id => .ok (id, d)
      | none =>
        if d.subsets.size ≥ a.config.stateLimit then .error (.stateLimit a.config.stateLimit)
        else .ok (d.subsets.size, d.found set) := by
  cases hn : d.numbers[set.words]? with
  | some id =>
    simp only [numberOf, StateT.run_bind, StateT.run_get, pure_bind, hn]
    rfl
  | none =>
    simp only [numberOf, StateT.run_bind, StateT.run_get, pure_bind, hn]
    split <;> rfl

theorem Discovery.Valid.found {d : Discovery} (hd : d.Valid a) (hset : set.Over a.size)
    (hnew : d.numbers[set.words]? = none) (hroom : d.subsets.size < a.config.stateLimit) :
    (d.found set).Valid a where
  bounded i set' h := by
    simp only [Discovery.found, Array.getElem?_push] at h
    split at h
    · exact Option.some.inj h ▸ hset
    · exact hd.bounded i set' h
  numbered words i := by
    simp only [Discovery.found, Array.getElem?_push, Std.TreeMap.getElem?_insert,
      Std.LawfulEqCmp.compare_eq_iff_eq]
    by_cases hwords : set.words = words
    · have hold : ∀ (j : StateId) (set' : StateSet), d.subsets[j]? = some set' → set'.words ≠ words :=
        fun j set' h he => by
          have hsome := (hd.numbered words j).2 ⟨set', h, he⟩
          rw [← hwords, hnew] at hsome
          exact absurd hsome (by simp)
      grind
    · grind [hd.numbered words i, Array.getElem?_eq_some_iff]
  remembered := hd.remembered
  size_le := by
    simp only [Discovery.found, Array.size_push]
    omega

private theorem Discovery.extends_found (d : Discovery) (set : StateSet) : d.Extends (d.found set) := by
  intro i set' h
  have hlt := (Array.getElem?_eq_some_iff.1 h).1
  rw [Discovery.found, Array.getElem?_push, if_neg (Nat.ne_of_lt hlt)]
  exact h

/-- Asking for the number of a subset gives a number that stands for it. -/
theorem numberOf_spec {d d' : Discovery} (hd : d.Valid a) (hset : set.Over a.size) {i : StateId}
    (h : (a.numberOf set).run d = .ok (i, d')) :
    d'.Valid a ∧ d.Extends d' ∧ d'.subsets[i]? = some set := by
  rw [run_numberOf] at h
  split at h
  · next id hid =>
    obtain ⟨rfl, rfl⟩ := Prod.mk.inj (Except.ok.inj h)
    obtain ⟨set', hset', hwords⟩ := (hd.numbered _ _).1 hid
    have hover := hd.bounded _ _ hset'
    have heq : set' = set := by
      cases set'
      cases set
      exact congr (congrArg StateSet.mk hwords) (hover.capacity.trans hset.capacity.symm)
    exact ⟨hd, .refl d, heq ▸ hset'⟩
  · next hnew =>
    split at h
    · simp at h
    · next hroom =>
      obtain ⟨rfl, rfl⟩ := Prod.mk.inj (Except.ok.inj h)
      refine ⟨hd.found hset hnew (Nat.lt_of_not_le hroom), d.extends_found set, ?_⟩
      simp [Discovery.found]

/-- Some state of the set has an edge on the symbol. -/
def Live (a : Automaton) (set : StateSet) (s : Symbol) : Prop := ∃ p ∈ set, ∃ q, a.Edge p (some s) q

theorem targets_eq_nil_iff (h : a.WellFormed) :
    (a.targets set).getD s.val [] = [] ↔ ¬ a.Live set s := by
  rw [List.eq_nil_iff_forall_not_mem]
  simp only [mem_targets h, Live]
  constructor
  · intro hnone hedge
    obtain ⟨p, hp, q, edge⟩ := hedge
    exact hnone q ⟨p, hp, edge⟩
  · intro hnone q hedge
    obtain ⟨p, hp, edge⟩ := hedge
    exact hnone ⟨p, hp, q, edge⟩

theorem edge?_spec (ha : a.WellFormed) {d d' : Discovery} (hd : d.Valid a)
    {edge : Option (Symbol × StateId)} (h : (a.edge? (a.targets set) s).run d = .ok (edge, d')) :
    d'.Valid a ∧ d.Extends d' ∧
      ((edge = none ∧ ¬ a.Live set s) ∨
        a.Live set s ∧ ∃ i, edge = some (s, i) ∧ d'.subsets[i]? = some (a.step set s)) := by
  unfold edge? at h
  split at h
  · next hnil =>
    obtain ⟨rfl, rfl⟩ := Prod.mk.inj (Except.ok.inj h)
    exact ⟨hd, .refl d, .inl ⟨rfl, (targets_eq_nil_iff ha).1 hnil⟩⟩
  · next ids hids =>
    obtain ⟨htarget, hrem⟩ := closure_targets ha hd.remembered set s
    obtain ⟨target, d₁, hclosure, h⟩ := stateT_bind_eq_ok_iff.1 h
    have hpair := (Prod.mk.inj (Except.ok.inj hclosure)).imp_left (htarget.symm.trans ·)
    obtain ⟨rfl, rfl⟩ := hpair
    obtain ⟨i, d₂, hnumber, h⟩ := stateT_bind_eq_ok_iff.1 h
    obtain ⟨rfl, rfl⟩ := Prod.mk.inj (Except.ok.inj h)
    obtain ⟨hvalid, hext, hi⟩ := numberOf_spec (hd.remember hrem) over_step hnumber
    exact ⟨hvalid, hext, .inr ⟨by rwa [← not_not (a := a.Live set s), ← targets_eq_nil_iff ha], i, rfl, hi⟩⟩

/-- The edges of a subset: they ascend, and there is one to the subset that a symbol leads to for
exactly those symbols on which the subset is live. -/
structure Row (a : Automaton) (subsets : Array StateSet) (set : StateSet)
    (row : List (Symbol × StateId)) : Prop where
  ascending : State.Ascending row
  sound : ∀ s (i : StateId), (s, i) ∈ row → a.Live set s ∧ subsets[i]? = some (a.step set s)
  complete : ∀ s, a.Live set s → ∃ i, (s, i) ∈ row

private theorem filterMapM_edge? (ha : a.WellFormed) {symbols : List Symbol}
    (hsymbols : symbols.Pairwise (· < ·)) {d d' : Discovery} (hd : d.Valid a)
    {row : List (Symbol × StateId)}
    (h : (symbols.filterMapM (a.edge? (a.targets set))).run d = .ok (row, d')) :
    d'.Valid a ∧ d.Extends d' ∧ State.Ascending row ∧
      (∀ s (i : StateId), (s, i) ∈ row →
        s ∈ symbols ∧ a.Live set s ∧ d'.subsets[i]? = some (a.step set s)) ∧
      ∀ s ∈ symbols, a.Live set s → ∃ i, (s, i) ∈ row := by
  induction symbols generalizing d row with
  | nil =>
    obtain ⟨rfl, rfl⟩ := Prod.mk.inj (Except.ok.inj h)
    exact ⟨hd, .refl d, .nil, by simp, by simp⟩
  | cons s symbols ih =>
    obtain ⟨hhead, htail⟩ := List.pairwise_cons.1 hsymbols
    rw [List.filterMapM_cons] at h
    obtain ⟨edge, d₁, hedge, h⟩ := stateT_bind_eq_ok_iff.1 h
    obtain ⟨hd₁, hext₁, hcase⟩ := edge?_spec ha hd hedge
    rcases hcase with ⟨rfl, hdead⟩ | ⟨hlive, i, rfl, hi⟩
    · obtain ⟨hd', hext, hasc, hsound, hcomplete⟩ := ih htail hd₁ h
      refine ⟨hd', hext₁.trans hext, hasc, fun t j ht => ?_, fun t ht hlive => ?_⟩
      · exact (hsound t j ht).imp_left (List.mem_cons_of_mem s)
      · rcases List.mem_cons.1 ht with rfl | ht
        · exact absurd hlive hdead
        · exact hcomplete t ht hlive
    · obtain ⟨rest, d₂, hrest, h⟩ := stateT_bind_eq_ok_iff.1 h
      obtain ⟨rfl, rfl⟩ := Prod.mk.inj (Except.ok.inj h)
      obtain ⟨hd', hext, hasc, hsound, hcomplete⟩ := ih htail hd₁ hrest
      refine ⟨hd', hext₁.trans hext, ?_, fun t j ht => ?_, fun t ht hlive' => ?_⟩
      · exact List.pairwise_cons.2 ⟨fun e he => hhead _ (hsound e.1 e.2 he).1, hasc⟩
      · rcases List.mem_cons.1 ht with ht | ht
        · obtain ⟨rfl, rfl⟩ := Prod.mk.inj ht
          exact ⟨List.mem_cons_self, hlive, hext _ _ hi⟩
        · exact (hsound t j ht).imp_left (List.mem_cons_of_mem s)
      · rcases List.mem_cons.1 ht with rfl | ht
        · exact ⟨i, List.mem_cons_self⟩
        · exact (hcomplete t ht hlive').imp fun _ => List.mem_cons_of_mem _

theorem edges_spec (ha : a.WellFormed) {d d' : Discovery} (hd : d.Valid a)
    {row : List (Symbol × StateId)} (h : (a.edges set).run d = .ok (row, d')) :
    d'.Valid a ∧ d.Extends d' ∧ a.Row d'.subsets set row := by
  obtain ⟨hd', hext, hasc, hsound, hcomplete⟩ :=
    filterMapM_edge? ha Symbol.ascending_all hd h
  exact ⟨hd', hext, hasc, fun s i hi => (hsound s i hi).2, fun s => hcomplete s (Symbol.mem_all s)⟩

/-- The edges of the first subsets have been determined. -/
def Rows (a : Automaton) (subsets : Array StateSet) (rows : Array (List (Symbol × StateId))) : Prop :=
  ∀ (i : StateId) row, rows[i]? = some row → ∃ set, subsets[i]? = some set ∧ a.Row subsets set row

theorem Row.extend {d d' : Discovery} (hext : d.Extends d') {row : List (Symbol × StateId)}
    (h : a.Row d.subsets set row) : a.Row d'.subsets set row :=
  ⟨h.ascending, fun s i hi => (h.sound s i hi).imp_right (hext _ _), h.complete⟩

/-- Each round determines the edges of one more subset. When the fuel is used up there are as many
rows as there may be subsets, so that none is left. -/
theorem discover_spec (ha : a.WellFormed) {fuel : Nat} {rows rows' : Array (List (Symbol × StateId))}
    {d d' : Discovery} (hd : d.Valid a) (hrows : a.Rows d.subsets rows)
    (hfuel : max 1 a.config.stateLimit ≤ fuel + rows.size)
    (h : (a.discover fuel rows).run d = .ok (rows', d')) :
    d'.Valid a ∧ d.Extends d' ∧ a.Rows d'.subsets rows' ∧ rows'.size = d'.subsets.size := by
  have hle : rows.size ≤ d.subsets.size := by
    by_contra hlt
    obtain ⟨set, hset, _⟩ := hrows d.subsets.size _ (Array.getElem?_eq_getElem (Nat.lt_of_not_le hlt))
    exact absurd (Array.getElem?_eq_some_iff.1 hset).1 (Nat.lt_irrefl _)
  induction fuel generalizing rows d with
  | zero =>
    obtain ⟨rfl, rfl⟩ := Prod.mk.inj (Except.ok.inj h)
    have := hd.size_le
    exact ⟨hd, .refl d, hrows, by omega⟩
  | succ fuel ih =>
    rw [discover] at h
    obtain ⟨d₁, d₂, hget, h⟩ := stateT_bind_eq_ok_iff.1 h
    obtain ⟨rfl, rfl⟩ := Prod.mk.inj (Except.ok.inj hget)
    split at h
    · next hnone =>
      obtain ⟨rfl, rfl⟩ := Prod.mk.inj (Except.ok.inj h)
      have := Array.getElem?_eq_none_iff.1 hnone
      exact ⟨hd, .refl d, hrows, by omega⟩
    · next set hset =>
      obtain ⟨row, d₃, hedges, h⟩ := stateT_bind_eq_ok_iff.1 h
      obtain ⟨hd₃, hext, hrow⟩ := edges_spec ha hd hedges
      have hrows' : a.Rows d₃.subsets (rows.push row) := fun i r hr => by
        rw [Array.getElem?_push] at hr
        split at hr
        · next hi =>
          obtain rfl := Option.some.inj hr
          exact ⟨set, hi ▸ hext _ _ hset, hrow⟩
        · obtain ⟨set', hset', hr'⟩ := hrows i r hr
          exact ⟨set', hext _ _ hset', hr'.extend hext⟩
      have hlt := (Array.getElem?_eq_some_iff.1 (hext _ _ hset)).1
      obtain ⟨hd', hext', hrest, hsize⟩ := ih hd₃ hrows' (by rw [Array.size_push]; omega) h
        (by rw [Array.size_push]; omega)
      exact ⟨hd', hext.trans hext', hrest, hsize⟩

theorem acceptance_eq_ok {terminal : Option TerminalId} (h : a.acceptance set = .ok terminal) :
    (a.terminalsOf set).min? = terminal := by
  unfold acceptance at h
  dsimp only at h
  cases hmin : (a.terminalsOf set).min? with
  | none =>
    rw [hmin] at h
    exact Except.ok.inj h
  | some first =>
    rw [hmin] at h
    dsimp only at h
    split at h
    · simp at h
    · exact Except.ok.inj h

/-- State `i` of the deterministic automaton stands for `subsets[i]`: it has the row of the subset
and accepts the first terminal that a state of the subset accepts. -/
structure Represents (d a : Automaton) (subsets : Array StateSet) : Prop where
  eq_frozen : d = a.frozen d.states 0
  size_eq : d.size = subsets.size
  size_le : subsets.size ≤ max 1 a.config.stateLimit
  start : subsets[0]? = some a.start
  distinct : ∀ (i j : StateId) set, subsets[i]? = some set → subsets[j]? = some set → i = j
  state : ∀ (i : StateId) set, subsets[i]? = some set →
    ∃ q, d.state? i = some q ∧ a.Row subsets set q.transitions ∧ q.epsilon = [] ∧
      a.acceptance set = .ok q.terminal ∧
      q.isFinal = (q.terminal.isSome || set.toList.any fun id => (a.state? id).any (·.isFinal))

theorem subsetState_eq_ok {row : List (Symbol × StateId)} {q : State}
    (h : a.subsetState set row = .ok q) :
    q.transitions = row ∧ q.epsilon = [] ∧ a.acceptance set = .ok q.terminal ∧
      q.isFinal = (q.terminal.isSome || set.toList.any fun id => (a.state? id).any (·.isFinal)) := by
  obtain ⟨terminal, hterminal, h⟩ := except_bind_eq_ok_iff.1 h
  obtain rfl := Except.ok.inj h
  exact ⟨rfl, rfl, hterminal, rfl⟩

private theorem Discovery.valid_first {known : Closures} (hset : set.Over a.size)
    (hknown : a.Remembered known) :
    Discovery.Valid a ⟨#[set], Std.TreeMap.empty.insert set.words 0, known⟩ where
  bounded i set' h := by
    rw [Array.getElem?_singleton] at h
    split at h
    · exact Option.some.inj h ▸ hset
    · simp at h
  numbered words i := by
    have hempty : (Std.TreeMap.empty : Std.TreeMap (Array UInt64) StateId)[words]? = none :=
      Std.TreeMap.getElem?_emptyc
    simp only [Std.TreeMap.getElem?_insert, hempty, Std.LawfulEqCmp.compare_eq_iff_eq]
    grind
  remembered := hknown
  size_le := Nat.le_max_left ..

/-- The discovery that the subset construction starts from: it has found the start. -/
def Discovery.first (a : Automaton) : Discovery :=
  ⟨#[a.start], Std.TreeMap.empty.insert a.start.words 0, (a.closure (Array.replicate a.size none) [a.initial]).2⟩

theorem Discovery.first_valid (ha : a.WellFormed) : (Discovery.first a).Valid a := by
  obtain ⟨known, hstart, hrem⟩ := closure_initial ha
  rw [first, hstart]
  exact valid_first over_start hrem

/-- The subset construction finds the subsets and then makes a state of each. -/
theorem subsetConstruction_eq (ha : a.WellFormed) : a.subsetConstruction =
    (a.discover (max 1 a.config.stateLimit) #[]).run (.first a) >>= fun result =>
      (result.2.subsets.zip result.1).toList.mapM (fun pair => a.subsetState pair.1 pair.2) >>= fun states =>
        .ok (a.frozen states.toArray 0) := by
  obtain ⟨known, hstart, -⟩ := closure_initial ha
  unfold subsetConstruction Discovery.first
  rw [hstart]
  refine congrArg (_ >>= ·) (funext fun result => ?_)
  dsimp only
  rw [Array.mapM_eq_mapM_toList, map_eq_pure_bind, bind_assoc]
  rfl

/-- Where the subset construction succeeds, subsets have been found and a state has been made of each. -/
theorem exists_of_subsetConstruction (ha : a.WellFormed) {d : Automaton} (h : a.subsetConstruction = .ok d) :
    ∃ rows found states, (a.discover (max 1 a.config.stateLimit) #[]).run (.first a) = .ok (rows, found) ∧
      (found.subsets.zip rows).toList.mapM (fun pair => a.subsetState pair.1 pair.2) = .ok states ∧
      a.frozen states.toArray 0 = d := by
  rw [subsetConstruction_eq ha] at h
  obtain ⟨⟨rows, found⟩, hdiscover, h⟩ := except_bind_eq_ok_iff.1 h
  obtain ⟨states, hstates, h⟩ := except_bind_eq_ok_iff.1 h
  exact ⟨rows, found, states, hdiscover, hstates, Except.ok.inj h⟩

theorem determinize_eq_subsetConstruction (hmutable : a.deterministic = false) :
    a.determinize = a.subsetConstruction := by rw [determinize, hmutable, if_neg Bool.false_ne_true]

/-- The states that are made of the subsets found represent them. -/
theorem represents_of_discover (ha : a.WellFormed) {rows : Array (List (Symbol × StateId))} {found : Discovery}
    {states : List State}
    (hdiscover : (a.discover (max 1 a.config.stateLimit) #[]).run (.first a) = .ok (rows, found))
    (hstates : (found.subsets.zip rows).toList.mapM (fun pair => a.subsetState pair.1 pair.2) = .ok states) :
    (a.frozen states.toArray 0).Represents a found.subsets := by
  obtain ⟨hfound, hext, hrows, hsize⟩ := discover_spec ha (Discovery.first_valid ha)
    (fun i row hi => by simp at hi) (by simp) hdiscover
  have hall := mapM_eq_ok_iff.1 hstates
  have hlength := hall.length_eq
  refine ⟨rfl, ?_, hfound.size_le, hext 0 _ rfl, fun i j set hi hj => ?_, fun i set hi => ?_⟩
  · have hzip : (found.subsets.zip rows).toList.length = found.subsets.size := by simp [hsize]
    simpa [frozen, size] using hlength.symm.trans hzip
  · have hnumber := (hfound.numbered set.words i).2 ⟨set, hi, rfl⟩
    rw [(hfound.numbered set.words j).2 ⟨set, hj, rfl⟩] at hnumber
    exact (Option.some.inj hnumber).symm
  · obtain ⟨hlt, rfl⟩ := Array.getElem?_eq_some_iff.1 hi
    have hltrows : i < rows.size := hsize ▸ hlt
    have hltlist : i < states.length := by simpa [← hlength, hsize] using hlt
    obtain ⟨set, hset, hrow⟩ := hrows i rows[i] (Array.getElem?_eq_getElem hltrows)
    obtain rfl := Option.some.inj (hi.symm.trans hset)
    have hq := hall.get (by simpa [hsize] using hlt) hltlist
    simp only [List.get_eq_getElem, Array.getElem_toList, Array.getElem_zip] at hq
    obtain ⟨htransitions, hepsilon, hacceptance, hfinal⟩ := subsetState_eq_ok hq
    refine ⟨states[i], ?_, htransitions ▸ hrow, hepsilon, hacceptance, hfinal⟩
    simp [state?, frozen, hltlist]

/-- The subset construction numbers subsets that its states then stand for. -/
theorem subsetConstruction_represents (ha : a.WellFormed) {d : Automaton}
    (h : a.subsetConstruction = .ok d) : ∃ subsets, d.Represents a subsets := by
  obtain ⟨rows, found, states, hdiscover, hstates, rfl⟩ := exists_of_subsetConstruction ha h
  exact ⟨found.subsets, represents_of_discover ha hdiscover hstates⟩

namespace Represents

variable {d : Automaton} {subsets : Array StateSet} (h : d.Represents a subsets)
include h

theorem config_eq : d.config = a.config := by rw [h.eq_frozen]; rfl

theorem terminals_eq : d.terminals = a.terminals := by rw [h.eq_frozen]; rfl

theorem initial_eq : d.initial = 0 := by rw [h.eq_frozen]; rfl

private theorem subset {i : StateId} {q : State} (hq : d.state? i = some q) : ∃ set, subsets[i]? = some set :=
  ⟨_, Array.getElem?_eq_getElem (h.size_eq ▸ lt_size_of_state? hq)⟩

private theorem state_of {i : StateId} (hi : subsets[i]? = some set) {q : State} (hq : d.state? i = some q) :
    a.Row subsets set q.transitions ∧ q.epsilon = [] ∧ a.acceptance set = .ok q.terminal := by
  obtain ⟨q', hq', hrow, hepsilon, hacceptance, -⟩ := h.state i set hi
  obtain rfl := Option.some.inj (hq.symm.trans hq')
  exact ⟨hrow, hepsilon, hacceptance⟩

theorem noEpsilon : d.NoEpsilon := fun _ _ hq =>
  let ⟨_, hi⟩ := h.subset hq
  (h.state_of hi hq).2.1

/-- A subset has a transition on exactly the symbols on which it is live, and it leads to the subset
that the symbol leads to. -/
theorem transition {i : StateId} (hi : subsets[i]? = some set) (s : Symbol) :
    (¬ a.Live set s ∧ d.transition? i s = none) ∨
      a.Live set s ∧ ∃ j, d.transition? i s = some j ∧ subsets[j]? = some (a.step set s) := by
  obtain ⟨q, hq, hrow, -⟩ := h.state i set hi
  have htransition : d.transition? i s = q.transition s := by rw [transition?, hq, Option.bind_some]
  rw [htransition]
  by_cases hlive : a.Live set s
  · obtain ⟨j, hj⟩ := hrow.complete s hlive
    exact .inr ⟨hlive, j, hrow.ascending.lookup_eq_some_iff.2 hj, (hrow.sound s j hj).2⟩
  · refine .inl ⟨hlive, Option.eq_none_iff_forall_ne_some.2 fun j hj => hlive ?_⟩
    exact (hrow.sound s j (hrow.ascending.lookup_eq_some_iff.1 hj)).1

private theorem terminal {i : StateId} (hi : subsets[i]? = some set) :
    d.terminal? i = (a.terminalsOf set).min? := by
  obtain ⟨q, hq, -, -, hacceptance, -⟩ := h.state i set hi
  rw [terminal?, hq, acceptance_eq_ok hacceptance, Option.bind_some]

theorem wellFormed (ha : a.WellFormed) : d.WellFormed where
  initial_lt := by
    rw [h.initial_eq, h.size_eq]
    exact (Array.getElem?_eq_some_iff.1 h.start).1
  sound i q hq := by
    obtain ⟨set, hi⟩ := h.subset hq
    obtain ⟨q', hq', hrow, hepsilon, hacceptance, hfinal⟩ := h.state i set hi
    obtain rfl := Option.some.inj (hq.symm.trans hq')
    have hmin := acceptance_eq_ok hacceptance
    refine ⟨fun j hj => ?_, hrow.ascending, ?_, fun id hid => ?_⟩
    · rw [State.mem_successors hrow.ascending, hepsilon] at hj
      obtain ⟨s, hs⟩ : ∃ s, q.transition s = some j := by simpa using hj
      rw [h.size_eq]
      have hmem := hrow.ascending.lookup_eq_some_iff.1 hs
      exact (Array.getElem?_eq_some_iff.1 (hrow.sound s j hmem).2).1
    · rw [hfinal, Bool.or_eq_left_iff_imp]
      intro hany
      obtain ⟨p, hp, hpfinal⟩ := List.any_eq_true.1 hany
      obtain ⟨state, hstate, hfinal⟩ := (Option.any_eq_true ..).1 hpfinal
      rw [(ha.sound p state hstate).final_iff] at hfinal
      obtain ⟨id, hid⟩ := Option.isSome_iff_exists.1 hfinal
      have hmem : id ∈ a.terminalsOf set := mem_terminalsOf.2
        ⟨p, StateSet.mem_toList.1 hp, Option.bind_eq_some_iff.2 ⟨state, hstate, hid⟩⟩
      rw [← hmin, List.isSome_min?_iff]
      exact List.ne_nil_of_mem hmem
    · rw [hid] at hmin
      obtain ⟨p, -, hp⟩ := mem_terminalsOf.1 (List.min?_mem hmin)
      obtain ⟨state, hstate, hid⟩ := Option.bind_eq_some_iff.1 hp
      rw [h.terminals_eq]
      exact (ha.sound p state hstate).terminal_known id hid
  owned name f hf := by
    rw [h.eq_frozen] at hf
    simp [frozen] at hf
  eof_first := h.terminals_eq ▸ ha.eof_first
  size_le := by
    rw [h.size_eq, h.config_eq]
    exact h.size_le

/-- After a word the automaton is in the state of the subset that the word leads to, or nowhere if
that subset is empty. -/
theorem run (ha : a.WellFormed) (w : List Symbol) :
    (d.run? d.initial w = none ∧ ∀ q, q ∉ a.after w) ∨
      ∃ i, d.run? d.initial w = some i ∧ subsets[i]? = some (a.after w) ∧ ∃ q, q ∈ a.after w := by
  induction w using List.reverseRecOn with
  | nil =>
    exact .inr ⟨0, by rw [h.initial_eq, run?_nil], h.start, a.initial, (mem_start ha).2 (.refl _)⟩
  | append_singleton w s ih =>
    simp only [run?_concat, after_concat, mem_step ha]
    rcases ih with ⟨hnone, hempty⟩ | ⟨i, hrun, hi, -⟩
    · refine .inl ⟨by rw [hnone, Option.bind_none], fun q => ?_⟩
      intro hstate
      obtain ⟨p, hp, -⟩ := hstate
      exact hempty p hp
    · rw [hrun, Option.bind_some]
      rcases h.transition hi s with ⟨hdead, hnone⟩ | ⟨⟨p, hp, q, edge⟩, j, hj, hsubset⟩
      · refine .inl ⟨hnone, fun q => ?_⟩
        intro hedge
        obtain ⟨p, hp, m, edge, -⟩ := hedge
        exact hdead ⟨p, hp, m, edge⟩
      · exact .inr ⟨j, hj, hsubset, q, p, hp, q, edge, .refl q⟩

theorem accepts_eq (ha : a.WellFormed) (w : List Symbol) : d.accepts w = a.accepts w := by
  rw [h.noEpsilon.accepts_eq (h.wellFormed ha), accepts]
  rcases h.run ha w with ⟨hnone, hempty⟩ | ⟨i, hrun, hi, -⟩
  · rw [hnone, Option.bind_none, eq_comm, List.min?_eq_none_iff, List.eq_nil_iff_forall_not_mem]
    intro id hid
    obtain ⟨q, hq, -⟩ := mem_terminalsOf.1 hid
    exact hempty q hq
  · rw [hrun, Option.bind_some, h.terminal hi]

theorem isSome_run?_iff (ha : a.WellFormed) (w : List Symbol) :
    (d.run? d.initial w).isSome ↔ ∃ q, Path a.Edge a.initial w q := by
  simp only [← mem_after ha]
  rcases h.run ha w with ⟨hnone, hempty⟩ | ⟨i, hrun, -, hsome⟩
  · simp [hnone, hempty]
  · simpa [hrun] using hsome

end Represents

end Automaton

end TableLexer

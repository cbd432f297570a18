import TableLexer.Proofs.Scanner.Invariant

/-! Looking at a token makes no difference to what is consumed. -/
namespace TableLexer

namespace Scanner

variable {τ : Type} [TransitionTable τ] {s s' : Scanner τ} {t : Token} {id : TerminalId}

private theorem advance_of_current (h : s.current = some t) : s.advance = (.ok t, { s with current := none }) :=
  congrArg Prod.snd (read_of_current h)

/-- The token that is looked at is the one that would be consumed, and then leaves the same scanner behind. -/
private theorem advance_of_peek (h : s.peek = (.ok t, s')) : s.advance = (.ok t, { s' with current := none }) := by
  cases hcurrent : s.current with
  | some u =>
    obtain ⟨hu, rfl⟩ := Prod.mk.inj ((peek_of_current hcurrent).symm.trans h)
    obtain rfl := Except.ok.inj hu
    exact advance_of_current hcurrent
  | none =>
    have hadvance : s.advance = (s.scanPast []).2 := congrArg Prod.snd (read_of_none hcurrent)
    have hnone : (s.scanPast []).2.2.current = none := (scanPast_current s []).trans hcurrent
    rcases hscan : (s.scanPast []).2 with ⟨e | u, r⟩
    · simp [peek_of_failure hcurrent hscan] at h
    · obtain ⟨hu, rfl⟩ := Prod.mk.inj ((peek_of_token hcurrent hscan).symm.trans h)
      obtain rfl := Except.ok.inj hu
      rw [hscan] at hadvance hnone
      rw [hadvance, ← hnone]

private theorem exists_peek_of_advance (h : s.advance.1 = .ok t) : ∃ s', s.peek = (.ok t, s') := by
  cases hcurrent : s.current with
  | some u =>
    rw [advance_of_current hcurrent] at h
    obtain rfl := Except.ok.inj h
    exact ⟨s, peek_of_current hcurrent⟩
  | none =>
    have hscan : (s.scanPast []).2 = (.ok t, s.advance.2) := by
      rw [← read_of_none hcurrent]
      exact Prod.ext h rfl
    exact ⟨_, peek_of_token hcurrent hscan⟩

/-- A scanner stands where another one does, or has also looked at the token there. -/
inductive Ahead (s : Scanner τ) : Scanner τ → Prop where
  | level : Ahead s s
  | looked {t : Token} {s' : Scanner τ} (h : s.peek = (.ok t, s')) : Ahead s s'

namespace Ahead

theorem advance (h : s.Ahead s') : s'.advance = s.advance := by
  cases h with
  | level => rfl
  | looked h => rw [advance_of_peek h, advance_of_current (current_of_peek h)]

theorem peek (h : s.Ahead s') (ht : s.advance.1 = .ok t) : s'.peek.1 = .ok t ∧ s.Ahead s'.peek.2 := by
  cases h with
  | level =>
    obtain ⟨r, hr⟩ := exists_peek_of_advance ht
    rw [hr]
    exact ⟨rfl, .looked hr⟩
  | looked h =>
    rw [advance_of_peek h] at ht
    rw [peek_of_current (current_of_peek h)]
    exact ⟨ht, .looked h⟩

end Ahead

/-- The scanner that is left after so many tokens have been consumed, none of which has been looked at before. -/
def advanced (s : Scanner τ) (n : Nat) : Scanner τ := s.after (List.replicate n .advance)

private theorem advanced_succ (s : Scanner τ) (n : Nat) : s.advanced (n + 1) = (s.advanced n).advance.2 := by
  unfold advanced
  rw [List.replicate_succ', after_append]
  rfl

/-- After a program that looks at tokens and consumes some, a scanner is at most one token ahead of the one that only
consumes as many. -/
theorem ahead_after {program : List Request} (hprogram : ∀ request ∈ program, request = .current ∨ request = .advance)
    (hok : ∀ k ≤ program.count .advance, ∃ t, (s.advanced k).advance.1 = .ok t) :
    (s.advanced (program.count .advance)).Ahead (s.after program) := by
  -- Each request is compared to the plain scanner of the program before it, so the last one is taken off.
  induction program using List.reverseRecOn with
  | nil => exact .level
  | append_singleton before request ih =>
    have hbefore := fun request h => hprogram request (List.mem_append_left _ h)
    rw [after_append]
    rcases hprogram request List.mem_concat_self with rfl | rfl
    · rw [List.count_append, show [Request.current].count .advance = 0 from rfl, Nat.add_zero] at hok ⊢
      obtain ⟨t, ht⟩ := hok _ (Nat.le_refl _)
      exact ((ih hbefore hok).peek ht).2
    · rw [List.count_append, show [Request.advance].count .advance = 1 from rfl] at hok ⊢
      have hahead := ih hbefore fun k hk => hok k (Nat.le_succ_of_le hk)
      rw [advanced_succ, ← hahead.advance]
      exact .level

/-- What it means that a program may look at tokens as it likes. The scanner that has run a part of the program
is compared to the one that has only consumed as many tokens: both consume the next one with the same result and
become the same, and it is the one that is looked at. -/
structure LooksFreely (s : Scanner τ) (program : List Request) : Prop where
  advance : ∀ before rest, program = before ++ .advance :: rest →
    (s.after before).advance = (s.advanced (before.count .advance)).advance
  current : ∀ before rest t, program = before ++ .current :: rest →
    (s.advanced (before.count .advance)).advance.1 = .ok t → (s.after before).peek.1 = .ok t

private theorem looksFreely {program : List Request}
    (hprogram : ∀ request ∈ program, request = .current ∨ request = .advance)
    (hok : ∀ k < program.count .advance, ∃ t, (s.advanced k).advance.1 = .ok t) : s.LooksFreely program where
  advance before rest heq := by
    subst heq
    have hbefore := fun request h => hprogram request (List.mem_append_left _ h)
    rw [List.count_append, List.count_cons_self] at hok
    exact (ahead_after hbefore fun k hk => hok k (by omega)).advance
  current before rest t heq ht := by
    subst heq
    have hbefore := fun request h => hprogram request (List.mem_append_left _ h)
    rw [List.count_append] at hok
    refine ((ahead_after hbefore fun k hk => ?_).peek ht).1
    rcases Nat.lt_or_eq_of_le hk with hlt | rfl
    · exact hok k (by omega)
    · exact ⟨t, ht⟩

/-- Whether a request can consume a token. -/
def Request.consumes : Request → Bool
  | current => false
  | advance => true
  | scanAll => true
  | skip => false
  | ignore _ => false
  | ignoreNamed _ => false
  | isIgnored _ => false
  | recover => true

private theorem current_answer (h : s.current = some t) {request : Request} (hrequest : request.consumes = false) :
    (s.answer request).2.current = some t := by
  cases request with
  | current =>
    change s.peek.2.current = some t
    rw [peek_of_current h]
    exact h
  | advance => contradiction
  | scanAll => contradiction
  | skip => exact s.skip_current.trans h
  | recover => contradiction
  | isIgnored id => exact h
  | ignore id =>
    rw [Scanner.answer]
    cases hignore : s.ignore id with
    | ok s' =>
      obtain ⟨-, rfl⟩ := eq_of_ignore hignore
      exact h
    | error e => exact h
  | ignoreNamed name =>
    rw [Scanner.answer]
    cases hignore : s.ignoreNamed name with
    | ok s' =>
      obtain ⟨id, hid⟩ := exists_ignore_of_ignoreNamed hignore
      obtain ⟨-, rfl⟩ := eq_of_ignore hid
      exact h
    | error e => exact h

/-- A token that has been looked at stays until it is consumed. -/
theorem current_after (h : s.current = some t) {requests : List Request}
    (hrequests : ∀ request ∈ requests, request.consumes = false) : (s.after requests).current = some t := by
  induction requests generalizing s with
  | nil => exact h
  | cons request requests ih =>
    obtain ⟨hrequest, hrequests⟩ := List.forall_mem_cons.1 hrequests
    exact ih (current_answer h hrequest) hrequests

private theorem not_isIgnored_of_scanPast (passed : List Token) (h : (s.scanPast passed).2.1 = .ok t)
    (ht : t.kind ≠ eof) : (s.scanPast passed).2.2.isIgnored t.kind = false := by
  fun_induction scanPast s passed with
  | case1 s passed u r hscan _ _ ih => exact ih h
  | case2 s passed u r hscan hkept =>
    obtain rfl := Except.ok.inj h
    exact Bool.eq_false_iff.2 hkept
  | case3 s passed r hscan =>
    obtain rfl := Except.ok.inj h
    exact absurd rfl ht
  | case4 s passed e r hscan => simp at h

/-- Once a kind is ignored and no token of it has been looked at, none is handed out. -/
theorem keeps_without (hid : id ≠ eof) : Keeps (fun s : Scanner τ => s.isIgnored id = true ∧
    ∀ t, s.current = some t → t.kind ≠ id) fun t => t.kind ≠ id where
  scan s h hcurrent := by
    refine ⟨?_, fun t ht => by simp [scanPast_current, hcurrent] at ht⟩
    rw [isIgnored, scanPast_ignored]
    exact h.1
  look s t s' h hcurrent hscan := by
    have hignored := scanPast_ignored s []
    have hnot : t.kind ≠ eof → s'.isIgnored t.kind = false := fun ht => by
      have hnot := not_isIgnored_of_scanPast [] (congrArg Prod.fst hscan) ht
      rwa [hscan] at hnot
    rw [hscan] at hignored
    have hignored' : s'.isIgnored id = true := by
      rw [isIgnored, hignored]
      exact h.1
    have hne : t.kind ≠ id := by
      rintro rfl
      simp [hignored'] at hnot
      exact hid hnot
    refine ⟨hne, hignored', fun u hu => ?_⟩
    obtain rfl := Option.some.inj hu
    exact hne
  take s t h hcurrent := ⟨h.2 t hcurrent, h.1, fun u hu => by simp at hu⟩
  skip s h := by
    unfold skip
    split <;> exact h
  ignore s id' s' h hignore := by
    obtain ⟨-, rfl⟩ := eq_of_ignore hignore
    exact ⟨List.contains_iff_mem.2 (List.mem_cons_of_mem _ (List.contains_iff_mem.1 h.1)), h.2⟩

private theorem without_cons_eq (id : TerminalId) (ids : List TerminalId) (tokens : List Token) :
    without (id :: ids) tokens = without [id] (without ids tokens) := by
  rw [without, without, without, List.filter_filter]
  refine congrArg (List.filter · tokens) (funext fun t => ?_)
  rw [List.contains_cons, List.contains_cons, List.contains_nil, Bool.or_false, Bool.not_or]

/-- Ignoring one kind more takes its tokens out of what scanning everything returns. -/
theorem scanAll_ignoring (hcurrent : s.current = none) (heof : s.isIgnored eof = false) (hid : id ≠ eof) :
    ({ s with ignored := id :: s.ignored } : Scanner τ).scanAll.1 = s.scanAll.1.map (without [id]) := by
  have hless : Ignores s.ignored s := ⟨fun _ => rfl, hcurrent⟩
  have hmore : Ignores (id :: s.ignored) ({ s with ignored := id :: s.ignored } : Scanner τ) := ⟨fun _ => rfl, hcurrent⟩
  have heof' : (id :: s.ignored).contains eof = false := by
    rw [List.contains_cons, show s.ignored.contains eof = false from heof, Bool.or_false, beq_eq_false_iff_ne]
    exact Ne.symm hid
  rw [hmore.scanAll heof', hless.scanAll heof]
  change s.ignoringNothing.scanAll.1.map _ = _
  cases s.ignoringNothing.scanAll.1 with
  | error e => rfl
  | ok tokens => exact congrArg Except.ok (without_cons_eq id s.ignored tokens)

/-- What it means that a scanner has looked at a token and ignores a kind behind it. Until it is consumed, the token
stays. From then on, no token of this kind is handed out, and scanning everything returns what it returns to the
scanner that does not ignore the kind, without the tokens of this kind. -/
structure IgnoresBehind (s : Scanner τ) (t : Token) (id : TerminalId) (plain : Scanner τ) : Prop where
  kept : ∀ between, (∀ request ∈ between, request.consumes = false) →
    (s.after between).peek.1 = .ok t ∧ (s.after between).advance.1 = .ok t ∧
      ∀ later, ∀ reply ∈ (s.after between).advance.2.answerAll later, ∀ u ∈ reply.handedOut, u.kind ≠ id
  scanAll : s.advance.2.scanAll.1 = plain.advance.2.scanAll.1.map (without [id])

private theorem ignoresBehind {looked ignoring : Scanner τ} (heof : s.isIgnored eof = false)
    (hpeek : s.peek = (.ok t, looked)) (hignore : looked.ignore id = .ok ignoring) : ignoring.IgnoresBehind t id s := by
  obtain ⟨⟨hid, -⟩, heq⟩ := eq_of_ignore hignore
  have hlooked : looked.current = some t := current_of_peek hpeek
  have hcurrent : ignoring.current = some t := by
    rw [heq]
    exact hlooked
  have hignored : ignoring.isIgnored id = true := by
    rw [heq]
    exact List.contains_iff_mem.2 List.mem_cons_self
  constructor
  · intro between hbetween
    have hcurrent' := current_after hcurrent hbetween
    have hignored' := ((keeps_isIgnored id).after hignored between).1
    rw [peek_of_current hcurrent', advance_of_current hcurrent']
    refine ⟨rfl, rfl, fun later => ((keeps_without hid).after ?_ later).2⟩
    exact ⟨hignored', fun u hu => by simp at hu⟩
  · have heof' := (keeps_eof.peek heof).1
    rw [hpeek] at heof'
    have hnone : ({ looked with current := none } : Scanner τ).current = none := rfl
    rw [advance_of_current hcurrent, heq, advance_of_peek hpeek]
    exact scanAll_ignoring hnone heof' hid

/-- Looking at tokens makes no difference to those that are consumed, as long as scanning does not fail. A kind that is
ignored after a token has been looked at is ignored behind this token. -/
theorem peeking_is_transparent {table : τ} {text : String} {ids : List TerminalId} (h : start table text ids = .ok s) :
    (∀ program, (∀ request ∈ program, request = .current ∨ request = .advance) →
      (∀ k < program.count .advance, ∃ t, (s.advanced k).advance.1 = .ok t) → s.LooksFreely program) ∧
    ∀ earlier t looked id ignoring, (s.after earlier).peek = (.ok t, looked) → looked.ignore id = .ok ignoring →
      ignoring.IgnoresBehind t id (s.after earlier) := by
  refine ⟨fun program => looksFreely, fun earlier t looked id ignoring hpeek hignore => ?_⟩
  exact ignoresBehind (keeps_eof.after (isIgnored_eof_of_start h) earlier).1 hpeek hignore

theorem peeking_is_transparent_breaks :
    (ofText breaks "\n\t\n").LooksFreely [.current, .advance, .current, .current, .advance, .advance] ∧
    ∃ t looked ignoring, (ofText breaks "\n\t\n").peek = (.ok t, looked) ∧ looked.ignore 1 = .ok ignoring ∧
      ignoring.IgnoresBehind t 1 (ofText breaks "\n\t\n") := by
  have hstart : start breaks "\n\t\n" [] = .ok (ofText breaks "\n\t\n") := rfl
  have hok : ∀ k < 3, ((ofText breaks "\n\t\n").advanced k).advance.1.toBool = true := by decide +kernel
  obtain ⟨hprogram, hignoring⟩ := peeking_is_transparent hstart
  refine ⟨hprogram _ (by simp) fun k hk => exists_ok_of_toBool (hok k hk), ?_⟩
  obtain ⟨t, ht⟩ := exists_ok_of_toBool (hok 0 (by decide))
  obtain ⟨looked, hlooked⟩ : ∃ looked, (ofText breaks "\n\t\n").peek = (.ok t, looked) := exists_peek_of_advance ht
  have hignore : ((ofText breaks "\n\t\n").peek.2.ignore 1).toBool = true := by decide +kernel
  rw [hlooked] at hignore
  obtain ⟨ignoring, hignore⟩ := exists_ok_of_toBool hignore
  exact ⟨t, looked, ignoring, hlooked, hignore, hignoring [] t looked 1 ignoring hlooked hignore⟩

end Scanner

end TableLexer

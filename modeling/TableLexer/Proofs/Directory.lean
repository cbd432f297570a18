import Mathlib.Data.List.Induction
import Mathlib.Data.List.Nodup
import TableLexer.Proofs.Registry

/-! A registry has names only. It answers as a map from names to ids would that is kept beside them and brought up to date
with every name that is registered. -/
namespace TableLexer

namespace Registry

private theorem lastIndex?_concat (names : List String) (last name : String) :
    lastIndex? name (names ++ [last]) =
      if last = name then some names.length else lastIndex? name names := by
  induction names with
  | nil => rfl
  | cons n rest ih =>
    rw [List.cons_append, lastIndex?, ih]
    by_cases hlast : last = name
    · rw [if_pos hlast, if_pos hlast]
      rfl
    · rw [if_neg hlast, if_neg hlast]
      rfl

/-- A name is found no sooner than where it occurs. -/
private theorem exists_lastIndex?_ge {name : String} {names : List String} {i : Nat} (h : names[i]? = some name) :
    ∃ j, lastIndex? name names = some j ∧ i ≤ j := by
  induction names generalizing i with
  | nil => simp at h
  | cons n rest ih =>
    rw [lastIndex?]
    cases i with
    | zero =>
      cases lastIndex? name rest with
      | none => exact ⟨0, if_pos (by simpa using h), Nat.le_refl 0⟩
      | some j => exact ⟨j + 1, rfl, Nat.zero_le _⟩
    | succ i =>
      obtain ⟨j, hj, hle⟩ := ih (by simpa using h)
      rw [hj]
      exact ⟨j + 1, rfl, Nat.succ_le_succ hle⟩

theorem lastIndex?_eq_some_iff {name : String} {names : List String} {i : Nat} :
    lastIndex? name names = some i ↔ names[i]? = some name ∧ ∀ later, i < later → names[later]? ≠ some name := by
  constructor
  · intro h
    refine ⟨getElem?_of_lastIndex? h, fun later hlt hlater => ?_⟩
    obtain ⟨j, hj, hle⟩ := exists_lastIndex?_ge hlater
    obtain rfl : i = j := Option.some.inj (h.symm.trans hj)
    exact absurd hlt (Nat.not_lt.2 hle)
  · rintro ⟨hname, hlast⟩
    obtain ⟨j, hj, hle⟩ := exists_lastIndex?_ge hname
    rcases Nat.eq_or_lt_of_le hle with rfl | hlt
    · exact hj
    · exact absurd (getElem?_of_lastIndex? hj) (hlast j hlt)

end Registry

/-- The names of terminals with a map from names to ids, which is kept up to date. -/
structure Directory where
  names : List String
  ids : String → Option TerminalId

namespace Directory

/-- A name that the map does not know is put behind the others and entered into the map. -/
def encode (d : Directory) (name : String) : Directory :=
  match d.ids name with
  | some _ => d
  | none => ⟨d.names ++ [name], Function.update d.ids name (some d.names.length)⟩

/-- The map is made from the names. Of a name listed twice, the last id replaces the others. -/
def ofNames (names : List String) : Directory :=
  ⟨names, names.zipIdx.foldl (fun ids entry => Function.update ids entry.1 (some entry.2)) fun _ => none⟩

/-- The map finds the ids that the registry of the same names does. -/
theorem ids_ofNames (names : List String) : (ofNames names).ids = (Registry.mk names).id? := by
  show names.zipIdx.foldl _ _ = fun name => Registry.lastIndex? name names
  induction names using List.reverseRecOn with
  | nil => rfl
  | append_singleton names last ih =>
    rw [List.zipIdx_append, List.foldl_append, ih]
    funext name
    rw [Registry.lastIndex?_concat]
    simp [Function.update_apply, eq_comm]

/-- Keeping the map up to date comes to the same as making it anew. -/
theorem encode_ofNames (r : Registry) (name : String) :
    (ofNames r.names).encode name = ofNames (r.encode name).2.names := by
  have hids : (ofNames r.names).ids name = r.id? name := congrFun (ids_ofNames r.names) name
  unfold encode Registry.encode
  rw [hids]
  cases r.id? name with
  | some id => rfl
  | none =>
    dsimp only
    rw [ofNames, ofNames, List.zipIdx_append, List.foldl_append]
    simp

end Directory

namespace Registry

variable {r : Registry} {names more : List String} {name : String} {id : TerminalId}

/-- The registry after names have been registered one after the other. -/
def registering (r : Registry) (names : List String) : Registry := names.foldl (fun r name => (r.encode name).2) r

theorem registering_append (r : Registry) (names more : List String) :
    r.registering (names ++ more) = (r.registering names).registering more := List.foldl_append

private theorem nodup_encode (h : r.names.Nodup) (name : String) : (r.encode name).2.names.Nodup := by
  rcases encode_cases r name with ⟨id, -, heq⟩ | ⟨hnone, heq⟩ <;> rw [heq]
  · exact h
  · rw [← List.concat_eq_append]
    exact h.concat (id?_eq_none_iff.1 hnone)

theorem nodup_registering (h : r.names.Nodup) (names : List String) : (r.registering names).names.Nodup := by
  induction names generalizing r with
  | nil => exact h
  | cons name names ih => exact ih (nodup_encode h name)

/-- Of names that are all different, each has the id that stands for it, and no other. -/
theorem id?_eq_some_iff (h : r.names.Nodup) : r.id? name = some id ↔ r.name? id = some name := by
  refine ⟨name?_of_id?, fun hname => ?_⟩
  cases hid : r.id? name with
  | none => exact absurd (List.mem_of_getElem? hname) (id?_eq_none_iff.1 hid)
  | some other =>
    have hother := name?_of_id? hid
    rw [(List.getElem?_inj (lt_size_of_name? hother) h).1 (hother.trans hname.symm)]

/-- Registering names keeps the map up to date that is made from them. -/
theorem ofNames_registering (r : Registry) (names : List String) :
    names.foldl Directory.encode (.ofNames r.names) = .ofNames (r.registering names).names := by
  induction names generalizing r with
  | nil => rfl
  | cons name names ih =>
    rw [List.foldl_cons, Directory.encode_ofNames]
    exact ih (r.encode name).2

private theorem given_encode (r : Registry) (name : String) : (r.encode name).1 = (r.id? name).getD r.size := by
  rcases encode_cases r name with ⟨id, hid, heq⟩ | ⟨hnone, heq⟩ <;> rw [heq]
  · rw [hid, Option.getD_some]
  · rw [hnone, Option.getD_none]

private theorem names_encode (r : Registry) (name : String) :
    (r.encode name).2.names = if name ∈ r.names then r.names else r.names ++ [name] := by
  rcases encode_cases r name with ⟨id, hid, heq⟩ | ⟨hnone, heq⟩ <;> rw [heq]
  · rw [if_pos (List.mem_of_getElem? (name?_of_id? hid))]
  · rw [if_neg (id?_eq_none_iff.1 hnone)]

/-- Registering a name gives the id by which it is found from then on, and makes no other name be found elsewhere. -/
theorem id?_encode (r : Registry) (name other : String) :
    (r.encode name).2.id? other = if other = name then some (r.encode name).1 else r.id? other := by
  rcases encode_cases r name with ⟨id, hid, heq⟩ | ⟨-, heq⟩ <;> rw [heq]
  · split
    · next hsame => rw [hsame, hid]
    · rfl
  · simp only [id?, lastIndex?_concat, size, eq_comm]

private theorem name?_registering (h : r.name? id = some name) (more : List String) :
    (r.registering more).name? id = some name := by
  induction more generalizing r with
  | nil => exact h
  | cons other more ih => exact ih ((name?_encode r other).2 id name h)

/-- What it means that a registry and a directory are consistent. They have the same names, and the same ids for them;
making the map anew changes nothing; and a name is found exactly if it occurs, by the last id at which it does. -/
structure Consistent (r : Registry) (d : Directory) : Prop where
  names : d.names = r.names
  ids : d.ids = r.id?
  remade : d = .ofNames d.names
  found : ∀ name, (∃ id, r.id? name = some id) ↔ name ∈ r.names
  last : ∀ name id, r.id? name = some id ↔
    r.name? id = some name ∧ ∀ later, id < later → r.name? later ≠ some name

private theorem consistent_ofNames (r : Registry) : r.Consistent (.ofNames r.names) where
  names := rfl
  ids := Directory.ids_ofNames r.names
  remade := rfl
  found name := by rw [← Option.isSome_iff_exists, Option.isSome_iff_ne_none, Ne, id?_eq_none_iff, not_not]
  last _ _ := lastIndex?_eq_some_iff

/-- What it means that registering a name only adds to a registry. The name is found by the id that is given out, which
is new for a new name only. Ids and names stay what they were, and no more than this one name is added. -/
structure Extends (r : Registry) (name : String) : Prop where
  given : (r.encode name).1 = (r.id? name).getD r.size
  found : (r.encode name).2.id? name = some (r.encode name).1
  keepsName : ∀ id other, r.name? id = some other → (r.encode name).2.name? id = some other
  keepsId : ∀ other id, r.id? other = some id → (r.encode name).2.id? other = some id
  names : (r.encode name).2.names = if name ∈ r.names then r.names else r.names ++ [name]

private theorem extends_encode (r : Registry) (name : String) : r.Extends name where
  given := r.given_encode name
  found := by rw [id?_encode, if_pos rfl]
  keepsName := (name?_encode r name).2
  keepsId other id h := by
    rw [id?_encode]
    split
    · next heq =>
      rw [heq] at h
      rw [given_encode, h, Option.getD_some]
    · exact h
  names := r.names_encode name

/-- What it means that the terminals are numbered: no name occurs twice, each id below the number of the terminals has
a name that is found by it, and the end of input comes first. -/
structure Numbered (r : Registry) : Prop where
  distinct : r.names.Nodup
  id_of_name : ∀ id < r.size, ∃ name, r.name? id = some name ∧ r.id? name = some id
  eof : r.name? TableLexer.eof = some eofName ∧ r.id? eofName = some TableLexer.eof

private theorem numbered_registering (more : List String) : (initial.registering more).Numbered := by
  have hdistinct : (initial.registering more).names.Nodup := nodup_registering (List.nodup_singleton _) more
  have heof : (initial.registering more).name? eof = some eofName := name?_registering rfl more
  refine ⟨hdistinct, fun id hid => ?_, heof, (id?_eq_some_iff hdistinct).2 heof⟩
  have hname := List.getElem?_eq_getElem (l := (initial.registering more).names) hid
  exact ⟨_, hname, (id?_eq_some_iff hdistinct).2 hname⟩

/-- Whatever names there are at first, of which some may be alike, and whatever names are then registered: a map that is
made from the first names and kept up to date is consistent with the registry, to which each further name only
adds. If there is only the end of input at first, the terminals are numbered. -/
theorem registering_consistent (start more : List String) :
    ((mk start).registering more).Consistent (more.foldl Directory.encode (.ofNames start)) ∧
      (∀ name, ((mk start).registering more).Extends name) ∧ (initial.registering more).Numbered := by
  refine ⟨?_, extends_encode _, numbered_registering more⟩
  rw [show Directory.ofNames start = .ofNames (mk start).names from rfl, ofNames_registering]
  exact consistent_ofNames _

example : ((mk ["A", "B", "A"]).registering ["B", "C"]).id? "A" = some 2 := by decide

end Registry

end TableLexer

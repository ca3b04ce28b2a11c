/-!
# Entries in order of arrival

A table of named values that remembers the order in which the names first arrived: a list of
pairs. `put` writes a value -- under a new name at the end, under a name that is there in its
place -- and `erase` takes a name out without moving the others.

* `keys_put_of_not_mem`, `keys_put_of_mem`: what `put` does to the order;
* `get?_put_self`, `get?_put_of_ne`, `mem_put`: what it does to the values;
* `get?_erase_self`, `get?_erase_of_ne`: what is left when a name is taken out;
* `get?_ofList`: of pairs written one after another the last of a name is read.
-/

namespace WireContract

/-- Named values in order of arrival. -/
abbrev Entries (α : Type) := List (String × α)

namespace Entries

variable {α : Type}

/-- The names, in order. -/
def keys (es : Entries α) : List String := es.map (·.1)

/-- The value of a name: that of its first entry. -/
def get? : Entries α → String → Option α
  | [], _ => none
  | (k, v) :: rest, key => if k = key then some v else get? rest key

/-- Whether the name has an entry. -/
def has (es : Entries α) (key : String) : Bool := (get? es key).isSome

/-- Write a value under a name. -/
def put : Entries α → String → α → Entries α
  | [], key, value => [(key, value)]
  | (k, v) :: rest, key, value =>
    if k = key then (k, value) :: rest else (k, v) :: put rest key value

/-- Take a name out. -/
def erase (es : Entries α) (key : String) : Entries α :=
  es.filter fun e => e.1 != key

/-- The pairs written one after another, later values over earlier ones of the same name. -/
def ofList (pairs : List (String × α)) : Entries α :=
  pairs.foldl (fun es p => put es p.1 p.2) []

/-- The value in the last pair of a name. -/
def lastOf (pairs : List (String × α)) (key : String) : Option α :=
  (pairs.filter fun p => p.1 == key).getLast?.map (·.2)

/-! ## Laws -/

@[simp] theorem get?_nil (key : String) : get? ([] : Entries α) key = none := rfl

@[simp] theorem keys_nil : keys ([] : Entries α) = [] := rfl

@[simp] theorem keys_cons (e : String × α) (es : Entries α) : keys (e :: es) = e.1 :: keys es := rfl

@[simp] theorem keys_append (es others : Entries α) :
    keys (es ++ others) = keys es ++ keys others :=
  List.map_append

theorem get?_cons_self (key : String) (value : α) (es : Entries α) :
    get? ((key, value) :: es) key = some value := by
  rw [get?, if_pos rfl]

theorem get?_cons_of_ne {key other : String} (h : other ≠ key) (value : α) (es : Entries α) :
    get? ((key, value) :: es) other = get? es other := by
  rw [get?, if_neg h.symm]

/-- What is found under a name has an entry. -/
theorem mem_of_get? {es : Entries α} {key : String} {value : α} (h : get? es key = some value) :
    (key, value) ∈ es := by
  induction es with
  | nil => cases h
  | cons e rest ih =>
    obtain ⟨k, v⟩ := e
    by_cases hk : key = k
    · subst hk
      rw [get?_cons_self] at h
      obtain rfl : v = value := Option.some.inj h
      exact List.mem_cons_self
    · rw [get?_cons_of_ne hk] at h
      exact List.mem_cons_of_mem _ (ih h)

theorem get?_eq_none_iff (es : Entries α) (key : String) :
    get? es key = none ↔ key ∉ keys es := by
  induction es with
  | nil => simp [get?, keys]
  | cons e rest ih =>
    obtain ⟨k, v⟩ := e
    simp only [get?, keys, List.map_cons, List.mem_cons, not_or]
    by_cases h : k = key
    · simp [h]
    · simp only [if_neg h, ih, keys]
      exact ⟨fun hn => ⟨fun e => h e.symm, hn⟩, fun hn => hn.2⟩

/-- A written value is read back. -/
@[simp] theorem get?_put_self (es : Entries α) (key : String) (value : α) :
    get? (put es key value) key = some value := by
  induction es with
  | nil => simp [put, get?]
  | cons e rest ih =>
    obtain ⟨k, v⟩ := e
    by_cases h : k = key
    · simp [put, get?, h]
    · simp [put, get?, h, ih]

/-- Writing under one name leaves the value of every other. -/
theorem get?_put_of_ne (es : Entries α) (key other : String) (value : α) (h : other ≠ key) :
    get? (put es key value) other = get? es other := by
  induction es with
  | nil => simp [put, get?, Ne.symm h]
  | cons e rest ih =>
    obtain ⟨k, v⟩ := e
    by_cases hk : k = key
    · simp [put, get?, hk, Ne.symm h]
    · by_cases ho : k = other
      · subst ho
        simp [put, get?, hk]
      · simp [put, get?, hk, ho, ih]

/-- A new name goes to the end. -/
theorem put_of_not_mem (es : Entries α) (key : String) (value : α) (h : key ∉ keys es) :
    put es key value = es ++ [(key, value)] := by
  induction es with
  | nil => rfl
  | cons e rest ih =>
    obtain ⟨k, v⟩ := e
    simp only [keys, List.map_cons, List.mem_cons, not_or] at h
    have hk : ¬ k = key := fun e => h.1 e.symm
    simp only [put, if_neg hk, List.cons_append]
    exact congrArg _ (ih h.2)

theorem keys_put_of_not_mem (es : Entries α) (key : String) (value : α) (h : key ∉ keys es) :
    keys (put es key value) = keys es ++ [key] := by
  rw [put_of_not_mem es key value h, keys, List.map_append]
  rfl

/-- A name that is there moves nothing. -/
theorem keys_put_of_mem (es : Entries α) (key : String) (value : α) (h : key ∈ keys es) :
    keys (put es key value) = keys es := by
  induction es with
  | nil => simp [keys] at h
  | cons e rest ih =>
    obtain ⟨k, v⟩ := e
    by_cases hk : k = key
    · simp [put, keys, hk]
    · have hr : key ∈ keys rest := by
        simp only [keys, List.map_cons, List.mem_cons] at h
        exact h.resolve_left fun e => hk e.symm
      simp only [put, if_neg hk, keys, List.map_cons]
      exact congrArg _ (ih hr)

/-- Names that are distinct stay distinct. -/
theorem nodup_keys_put {es : Entries α} (h : es.keys.Nodup) (key : String) (value : α) :
    (es.put key value).keys.Nodup := by
  by_cases hkey : key ∈ es.keys
  · rwa [keys_put_of_mem es key value hkey]
  · rw [keys_put_of_not_mem es key value hkey]
    refine List.nodup_append.mpr ⟨h, by simp, fun other hother last hlast => ?_⟩
    obtain rfl := List.mem_singleton.mp hlast
    exact ne_of_mem_of_not_mem hother hkey

/-- Everything in a table that is written to was there, or is what is written. -/
theorem mem_put {es : Entries α} {key : String} {value : α} {e : String × α}
    (h : e ∈ es.put key value) : e ∈ es ∨ e = (key, value) := by
  induction es with
  | nil => exact Or.inr (List.mem_singleton.mp h)
  | cons first rest ih =>
    obtain ⟨k, v⟩ := first
    unfold put at h
    split at h
    · rename_i hk
      rcases List.mem_cons.mp h with rfl | h
      · exact Or.inr (by rw [hk])
      · exact Or.inl (List.mem_cons_of_mem _ h)
    · rcases List.mem_cons.mp h with rfl | h
      · exact Or.inl List.mem_cons_self
      · exact (ih h).imp_left (List.mem_cons_of_mem _)

/-- A name that was taken out is not there. -/
@[simp] theorem get?_erase_self (es : Entries α) (key : String) :
    get? (erase es key) key = none := by
  rw [get?_eq_none_iff]
  intro h
  obtain ⟨e, he, hk⟩ := List.mem_map.1 h
  have := (List.mem_filter.1 he).2
  simp [hk] at this

/-- Taking one name out leaves the value of every other. -/
theorem get?_erase_of_ne (es : Entries α) (key other : String) (h : other ≠ key) :
    get? (erase es key) other = get? es other := by
  induction es with
  | nil => rfl
  | cons e rest ih =>
    obtain ⟨k, v⟩ := e
    by_cases hk : k = key
    · subst hk
      have hd : erase ((k, v) :: rest) k = erase rest k := by simp [erase]
      rw [hd, ih]
      simp [get?, Ne.symm h]
    · have hd : erase ((k, v) :: rest) key = (k, v) :: erase rest key := by simp [erase, hk]
      rw [hd]
      by_cases ho : k = other
      · simp [get?, ho]
      · simp [get?, ho, ih]

/-! ### Many writes -/

/-- With distinct names every entry is the one that is found. -/
theorem get?_of_mem {es : Entries α} (h : es.keys.Nodup) {key : String} {value : α}
    (hmem : (key, value) ∈ es) : get? es key = some value := by
  induction es with
  | nil => cases hmem
  | cons e rest ih =>
    obtain ⟨k, v⟩ := e
    obtain ⟨hk, hrest⟩ := List.nodup_cons.mp h
    rcases List.mem_cons.mp hmem with he | hmem
    · obtain ⟨rfl, rfl⟩ := Prod.mk.inj he
      exact get?_cons_self key value rest
    · have hne : key ≠ k := fun hkey => hk (hkey ▸ List.mem_map_of_mem (f := (·.1)) hmem)
      rw [get?_cons_of_ne hne, ih hrest hmem]

theorem get?_foldl_put (pairs : List (String × α)) (es : Entries α) (key : String) :
    get? (pairs.foldl (fun es p => put es p.1 p.2) es) key =
      (lastOf pairs key).or (get? es key) := by
  induction pairs generalizing es with
  | nil => rfl
  | cons p rest ih =>
    rw [List.foldl_cons, ih]
    by_cases h : p.1 = key
    · cases hlast : (rest.filter fun p => p.1 == key).getLast? <;>
        simp [lastOf, h, List.getLast?_cons, hlast]
    · simp [lastOf, h, get?_put_of_ne _ _ _ _ (Ne.symm h)]

/-- **The last pair of a name is the one that is read.** -/
theorem get?_ofList (pairs : List (String × α)) (key : String) :
    get? (ofList pairs) key = lastOf pairs key := by
  rw [ofList, get?_foldl_put]
  exact Option.or_none

theorem nodup_keys_foldl_put (pairs : List (String × α)) {es : Entries α} (h : es.keys.Nodup) :
    (pairs.foldl (fun es p => put es p.1 p.2) es).keys.Nodup := by
  induction pairs generalizing es with
  | nil => exact h
  | cons p rest ih => exact ih (nodup_keys_put h p.1 p.2)

theorem nodup_keys_ofList (pairs : List (String × α)) : (ofList pairs).keys.Nodup :=
  nodup_keys_foldl_put pairs List.nodup_nil

/-- All that is in the table is the last pair of its name. -/
theorem lastOf_of_mem_ofList {pairs : List (String × α)} {key : String} {value : α}
    (h : (key, value) ∈ ofList pairs) : lastOf pairs key = some value := by
  rw [← get?_ofList]
  exact get?_of_mem (nodup_keys_ofList pairs) h

theorem mem_of_lastOf {pairs : List (String × α)} {key : String} {value : α}
    (h : lastOf pairs key = some value) : (key, value) ∈ pairs := by
  obtain ⟨p, hp, rfl⟩ := Option.map_eq_some_iff.mp h
  obtain ⟨hmem, hname⟩ := List.mem_filter.mp (List.mem_of_getLast? hp)
  rwa [← beq_iff_eq.mp hname]

/-- A name that has one value only, however often. -/
theorem lastOf_eq_some {pairs : List (String × α)} {key : String} {value : α}
    (hmem : (key, value) ∈ pairs) (h : ∀ other, (key, other) ∈ pairs → other = value) :
    lastOf pairs key = some value := by
  cases hlast : lastOf pairs key with
  | some other => rw [h other (mem_of_lastOf hlast)]
  | none =>
    have hnil : pairs.filter (fun p => p.1 == key) = [] := by
      simpa [lastOf] using hlast
    have hkey : (key, value) ∈ pairs.filter fun p => p.1 == key :=
      List.mem_filter.mpr ⟨hmem, beq_self_eq_true key⟩
    rw [hnil] at hkey
    cases hkey

end Entries

end WireContract

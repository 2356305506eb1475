/-!
# Dictionaries

A dictionary binds each of its keys to one value and lists its entries in the order of their
keys, character by character by code point. Two dictionaries with the same bindings are therefore
equal.
-/

namespace TemplateEngine

/-- Text keys bound to values, sorted by key. -/
structure Dictionary (α : Type) where
  entries : List (String × α)
  sorted : (entries.map Prod.fst).Pairwise (· < ·)

namespace Dictionary

variable {α : Type}

/-! ## Entries -/

/-- The value of a key in a list of entries. -/
def lookupEntry (key : String) : List (String × α) → Option α
  | [] => none
  | (k, v) :: rest => if k = key then some v else lookupEntry key rest

/-- Puts an entry in its place, where it replaces one with the same key. -/
def insertEntry (key : String) (value : α) : List (String × α) → List (String × α)
  | [] => [(key, value)]
  | (k, v) :: rest =>
    if key < k then (key, value) :: (k, v) :: rest
    else if key = k then (key, value) :: rest
    else (k, v) :: insertEntry key value rest

theorem lookupEntry_insertEntry (key name : String) (value : α) (es : List (String × α)) :
    lookupEntry name (insertEntry key value es) =
      if key = name then some value else lookupEntry name es := by
  induction es with
  | nil => simp [insertEntry, lookupEntry]
  | cons e rest ih =>
    obtain ⟨k, v⟩ := e
    simp only [insertEntry]
    split
    · simp [lookupEntry]
    · split
      · next h => subst h; by_cases hn : key = name <;> simp [lookupEntry, hn]
      · next h =>
        simp only [lookupEntry, ih]
        by_cases hk : k = name
        · subst hk; simp [h]
        · simp [hk]

theorem mem_keys_insertEntry {key x : String} {value : α} {es : List (String × α)}
    (h : x ∈ (insertEntry key value es).map Prod.fst) : x = key ∨ x ∈ es.map Prod.fst := by
  induction es with
  | nil => simpa [insertEntry] using h
  | cons e rest ih =>
    obtain ⟨k, v⟩ := e
    simp only [insertEntry] at h
    split at h
    · simpa using h
    · split at h
      · next hk => subst hk; simp at h; simp [h]
      · simp only [List.map_cons, List.mem_cons] at h ⊢
        rcases h with h | h
        · exact .inr (.inl h)
        · rcases ih h with h | h
          · exact .inl h
          · exact .inr (.inr h)

theorem sorted_insertEntry (key : String) (value : α) (es : List (String × α))
    (h : (es.map Prod.fst).Pairwise (· < ·)) :
    ((insertEntry key value es).map Prod.fst).Pairwise (· < ·) := by
  induction es with
  | nil => simp [insertEntry]
  | cons e rest ih =>
    obtain ⟨k, v⟩ := e
    simp only [List.map_cons, List.pairwise_cons] at h
    simp only [insertEntry]
    split
    · next hlt =>
      simp only [List.map_cons, List.pairwise_cons, List.mem_cons]
      refine ⟨fun x hx => ?_, h.1, h.2⟩
      rcases hx with rfl | hx
      · exact hlt
      · exact String.lt_trans hlt (h.1 x hx)
    · next hle =>
      split
      · next hk => subst hk; simpa using h
      · next hne =>
        simp only [List.map_cons, List.pairwise_cons]
        refine ⟨fun x hx => ?_, ih h.2⟩
        rcases mem_keys_insertEntry hx with rfl | hx
        · rcases Decidable.em (k < x) with hlt | hge
          · exact hlt
          · exact absurd (String.le_antisymm (String.not_lt.1 hge) (String.not_lt.1 hle)) hne
        · exact h.1 x hx

/-! ## Operations -/

/-- The dictionary without entries. -/
def empty : Dictionary α := ⟨[], .nil⟩

instance : Inhabited (Dictionary α) := ⟨empty⟩

/-- The value of a key. -/
def get? (d : Dictionary α) (key : String) : Option α := lookupEntry key d.entries

/-- Binds a key, whatever it was bound to. -/
def insert (d : Dictionary α) (key : String) (value : α) : Dictionary α :=
  ⟨insertEntry key value d.entries, sorted_insertEntry key value d.entries d.sorted⟩

/-- Whether a key is bound. -/
def contains (d : Dictionary α) (key : String) : Bool := (d.get? key).isSome

/-- The keys in order. -/
def keys (d : Dictionary α) : List String := d.entries.map Prod.fst

/-- The values in the order of their keys. -/
def values (d : Dictionary α) : List α := d.entries.map Prod.snd

/-- The number of entries. -/
def size (d : Dictionary α) : Nat := d.entries.length

/-- Whether nothing is bound. -/
def isEmpty (d : Dictionary α) : Bool := d.entries.isEmpty

/-- The dictionary of a list of bindings, of which a later one replaces an earlier one. -/
def ofList (es : List (String × α)) : Dictionary α :=
  es.foldl (fun d (key, value) => d.insert key value) empty

/-- All bindings of the second dictionary, and those of the first that it does not replace. -/
def update (d e : Dictionary α) : Dictionary α :=
  e.entries.foldl (fun d (key, value) => d.insert key value) d

@[simp] theorem get?_empty (key : String) : (empty : Dictionary α).get? key = none := rfl

@[simp] theorem get?_insert (d : Dictionary α) (key name : String) (value : α) :
    (d.insert key value).get? name = if key = name then some value else d.get? name :=
  lookupEntry_insertEntry key name value d.entries

theorem get?_insert_self (d : Dictionary α) (key : String) (value : α) :
    (d.insert key value).get? key = some value := by simp

theorem get?_insert_of_ne (d : Dictionary α) {key name : String} (h : key ≠ name) (value : α) :
    (d.insert key value).get? name = d.get? name := by simp [h]

end Dictionary

end TemplateEngine

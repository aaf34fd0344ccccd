/-!
# Dictionaries

A dictionary gives values to names. Its entries are kept in the order of their names, character by
character, so equal dictionaries list the same entries in the same order, however they were built.
`get?_insert` says what an insertion changes.
-/

namespace Scriptlet

variable {α : Type}

/-- Names with their values, in the order of the names. -/
structure Dictionary (α : Type) where
  entries : List (String × α)
  sorted : entries.Pairwise fun a b => a.1 < b.1

namespace Dictionary

/-- Puts an entry in its place, instead of the entry of that name if there is one. -/
def insertEntry (name : String) (value : α) : List (String × α) → List (String × α)
  | [] => [(name, value)]
  | e :: es =>
    if name < e.1 then (name, value) :: e :: es
    else if name = e.1 then (name, value) :: es
    else e :: insertEntry name value es

theorem mem_insertEntry {name : String} {value : α} {es : List (String × α)} {x : String × α}
    (h : x ∈ insertEntry name value es) : x = (name, value) ∨ x ∈ es := by
  induction es with
  | nil => simpa [insertEntry] using h
  | cons e es ih =>
    simp only [insertEntry] at h
    split at h
    · simpa using h
    · split at h
      · rcases List.mem_cons.1 h with h | h
        · exact .inl h
        · exact .inr (List.mem_cons_of_mem _ h)
      · rcases List.mem_cons.1 h with h | h
        · exact .inr (by simp [h])
        · exact (ih h).imp_right (List.mem_cons_of_mem _)

theorem sorted_insertEntry {name : String} {value : α} {es : List (String × α)}
    (h : es.Pairwise fun a b => a.1 < b.1) :
    (insertEntry name value es).Pairwise fun a b => a.1 < b.1 := by
  induction es with
  | nil => simp [insertEntry]
  | cons e es ih =>
    obtain ⟨he, hes⟩ := List.pairwise_cons.1 h
    simp only [insertEntry]
    split
    · rename_i hlt
      refine List.pairwise_cons.2 ⟨fun x hx => ?_, h⟩
      rcases List.mem_cons.1 hx with rfl | hx
      · exact hlt
      · exact String.lt_trans hlt (he x hx)
    · split
      · rename_i heq
        exact List.pairwise_cons.2 ⟨fun x hx => heq ▸ he x hx, hes⟩
      · rename_i hlt heq
        refine List.pairwise_cons.2 ⟨fun x hx => ?_, ih hes⟩
        rcases mem_insertEntry hx with rfl | hx
        · exact (Std.lt_trichotomy e.1 name).resolve_right (by
            rintro (h | h)
            · exact heq h.symm
            · exact hlt h)
        · exact he x hx

/-- The dictionary without entries. -/
def empty : Dictionary α := ⟨[], .nil⟩

instance : EmptyCollection (Dictionary α) := ⟨empty⟩

instance : Inhabited (Dictionary α) := ⟨∅⟩

/-- Gives a name its value, whether or not it had one. -/
def insert (d : Dictionary α) (name : String) (value : α) : Dictionary α :=
  ⟨insertEntry name value d.entries, sorted_insertEntry d.sorted⟩

/-- The value of a name. -/
def get? (d : Dictionary α) (name : String) : Option α :=
  (d.entries.find? fun e => e.1 = name).map Prod.snd

def contains (d : Dictionary α) (name : String) : Bool := (d.get? name).isSome

/-- The names, in order. -/
def names (d : Dictionary α) : List String := d.entries.map Prod.fst

def size (d : Dictionary α) : Nat := d.entries.length

def isEmpty (d : Dictionary α) : Bool := d.entries.isEmpty

/-- A dictionary of entries, later ones in place of earlier ones. -/
def ofList (es : List (String × α)) : Dictionary α :=
  es.foldl (fun d e => d.insert e.1 e.2) ∅

@[simp] theorem get?_empty (name : String) : (∅ : Dictionary α).get? name = none := rfl

theorem get?_insert (d : Dictionary α) (name : String) (value : α) (x : String) :
    (d.insert name value).get? x = if x = name then some value else d.get? x := by
  obtain ⟨es, h⟩ := d
  simp only [insert, get?]
  clear h
  induction es with
  | nil => by_cases h : x = name <;> simp [insertEntry, h, eq_comm]
  | cons e es ih =>
    simp only [insertEntry]
    split
    · by_cases h : x = name <;> simp [List.find?_cons, h, eq_comm]
    · split
      · rename_i heq
        by_cases h : x = name
        · simp [h]
        · simp [h, ← heq, Ne.symm h]
      · rename_i hne
        by_cases h : e.1 = x
        · have : x ≠ name := fun hx => hne (hx ▸ h.symm)
          simp [h, this]
        · simpa [List.find?_cons, h] using ih

@[simp] theorem get?_insert_self (d : Dictionary α) (name : String) (value : α) :
    (d.insert name value).get? name = some value := by simp [get?_insert]

theorem get?_insert_of_ne (d : Dictionary α) {name x : String} (value : α) (h : x ≠ name) :
    (d.insert name value).get? x = d.get? x := by simp [get?_insert, h]

end Dictionary

end Scriptlet

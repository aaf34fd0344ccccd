import Scriptlet.Dictionary

/-!
# Dictionaries with other values

`Dictionary.mapNamed` makes new values out of the old ones and their names. It keeps the names, so
it goes with looking up and with insertion.
-/

namespace Scriptlet

namespace Dictionary

variable {α β : Type}

/-- The same names, with values made from the old ones. -/
def mapNamed (f : String → α → β) (d : Dictionary α) : Dictionary β :=
  ⟨d.entries.map fun e => (e.1, f e.1 e.2), List.pairwise_map.2 d.sorted⟩

theorem get?_mapNamed (f : String → α → β) (d : Dictionary α) (name : String) :
    (d.mapNamed f).get? name = (d.get? name).map (f name) := by
  have key : ∀ es : List (String × α),
      ((es.map fun e => (e.1, f e.1 e.2)).find? fun e => e.1 = name).map Prod.snd =
        ((es.find? fun e => e.1 = name).map Prod.snd).map (f name) := by
    intro es
    induction es with
    | nil => rfl
    | cons e es ih =>
      rw [List.map_cons, List.find?_cons, List.find?_cons]
      by_cases he : e.1 = name
      · simp [he]
      · simpa [he] using ih
  exact key d.entries

theorem map_insertEntry (f : String → α → β) (name : String) (value : α) (es : List (String × α)) :
    (insertEntry name value es).map (fun e => (e.1, f e.1 e.2)) =
      insertEntry name (f name value) (es.map fun e => (e.1, f e.1 e.2)) := by
  induction es with
  | nil => rfl
  | cons e es ih =>
    simp only [insertEntry, List.map_cons]
    split
    · rfl
    · split
      · rfl
      · rw [List.map_cons, ih]

theorem mapNamed_insert (f : String → α → β) (d : Dictionary α) (name : String) (value : α) :
    (d.insert name value).mapNamed f = (d.mapNamed f).insert name (f name value) := by
  simp only [mapNamed, insert, map_insertEntry]

end Dictionary

end Scriptlet

import Mathlib.Data.Finset.Basic

/-!
# Identifiers

The newtypes over strings that the server and the client exchange.  They are one type `Name`,
indexed by what is named, ordered as their strings are, so that they can be the keys of maps.
-/

namespace SideSwap

/-- What a name can name. -/
inductive NameKind where
  | order
  | asset
  | ticker
  | phoneKey
  | contactKey
deriving DecidableEq

/-- A name: a string of the given kind. -/
structure Name (k : NameKind) where
  val : String
deriving DecidableEq

namespace Name

variable {k : NameKind}

instance : Ord (Name k) := ⟨fun a b => compare a.val b.val⟩

theorem compare_eq (a b : Name k) : compare a b = compare a.val b.val := rfl

instance : Std.TransOrd (Name k) where
  eq_swap {a b} := by
    rw [compare_eq, compare_eq]
    exact Std.OrientedCmp.eq_swap
  isLE_trans {a b c} hab hbc := by
    rw [compare_eq] at *
    exact Std.TransCmp.isLE_trans hab hbc

instance : Std.LawfulEqOrd (Name k) where
  compare_self {a} := by
    rw [compare_eq]
    exact Std.ReflCmp.compare_self
  eq_of_compare {a b} h := by
    rw [compare_eq] at h
    obtain ⟨a⟩ := a
    obtain ⟨b⟩ := b
    exact congrArg Name.mk (Std.LawfulEqCmp.eq_of_compare h)

instance : LawfulBEq (Name k) := inferInstance

end Name

/-- The id of an order, a swap or a peg. -/
abbrev OrderId := Name .order
/-- The id of an asset on the chain. -/
abbrev AssetId := Name .asset
/-- The ticker of an asset. -/
abbrev Ticker := Name .ticker
/-- The key of a registered phone. -/
abbrev PhoneKey := Name .phoneKey
/-- The key of a contact. -/
abbrev ContactKey := Name .contactKey

/-- Ordered maps (`BTreeMap`). -/
abbrev Map (α β : Type) [Ord α] : Type := Std.ExtTreeMap α β

namespace Map

variable {α β : Type} [Ord α] [Std.TransOrd α]

theorem lookup_empty (a : α) : (∅ : Map α β)[a]? = none :=
  Std.ExtTreeMap.getElem?_empty

theorem lookup_eq_none_iff (m : Map α β) (a : α) : m[a]? = none ↔ m.contains a = false := by
  rw [Std.ExtTreeMap.contains_eq_isSome_getElem?, Option.isSome_eq_false_iff, Option.isNone_iff_eq_none]

/-- The values in the order of their keys. -/
theorem values_eq (m : Map α β) : m.values = m.toList.map Prod.snd := by
  obtain ⟨m⟩ := m
  induction m using Std.ExtDTreeMap.inductionOn with
  | _ t =>
    show t.inner.values = (Std.DTreeMap.Internal.Impl.Const.toList t.inner).map Prod.snd
    rw [Std.DTreeMap.Internal.Impl.values_eq_map_snd,
      Std.DTreeMap.Internal.Impl.Const.toList_eq_toListModel_map, List.map_map]
    rfl

variable [Std.LawfulEqOrd α]

/-- The values of a map are those that it has at some key. -/
theorem mem_values {m : Map α β} {v : β} : v ∈ m.values ↔ ∃ a : α, m[a]? = some v := by
  rw [values_eq, List.mem_map]
  constructor
  · rintro ⟨p, hp, rfl⟩
    exact ⟨p.1, Std.ExtTreeMap.mem_toList_iff_getElem?_eq_some.mp hp⟩
  · rintro ⟨a, ha⟩
    exact ⟨(a, v), Std.ExtTreeMap.mem_toList_iff_getElem?_eq_some.mpr ha, rfl⟩

variable [DecidableEq α]

/-- An insertion shows at its key and nowhere else. -/
theorem lookup_insert (m : Map α β) (a b : α) (v : β) :
    (m.insert a v)[b]? = if a = b then some v else m[b]? := by
  rw [Std.ExtTreeMap.getElem?_insert]
  simp only [Std.LawfulEqOrd.compare_eq_iff_eq]

/-- `insertIfNew` keeps a value that is there. -/
theorem lookup_insertIfNew (m : Map α β) (a b : α) (v : β) :
    (m.insertIfNew a v)[b]? = if a = b then some (m[b]?.getD v) else m[b]? := by
  rw [Std.ExtTreeMap.getElem?_insertIfNew]
  simp only [Std.LawfulEqOrd.compare_eq_iff_eq]
  by_cases hab : a = b
  · subst hab
    cases hlookup : m[a]? with
    | none =>
      have hmem : a ∉ m := by
        rw [Std.ExtTreeMap.mem_iff_isSome_getElem?, hlookup]
        exact Bool.false_ne_true
      rw [if_pos ⟨rfl, hmem⟩, if_pos rfl, Option.getD_none]
    | some w =>
      have hmem : a ∈ m := by
        rw [Std.ExtTreeMap.mem_iff_isSome_getElem?, hlookup]
        rfl
      rw [if_neg fun hnot => hnot.2 hmem, if_pos rfl, Option.getD_some]
  · rw [if_neg fun hnot => hab hnot.1, if_neg hab]

/-- A removal shows at its key and nowhere else. -/
theorem lookup_erase (m : Map α β) (a b : α) :
    (m.erase a)[b]? = if a = b then none else m[b]? := by
  rw [Std.ExtTreeMap.getElem?_erase]
  simp only [Std.LawfulEqOrd.compare_eq_iff_eq]

end Map

end SideSwap

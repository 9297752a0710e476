import Mathlib

/-!
# Linked lists with stable iterators

A list whose elements keep their iterators: adding or removing an element
leaves the iterators of all other elements valid, and the iterator of a
removed element stays invalid for good.
-/

namespace Agrarian.Lib

/-- The nodes of the list in order, each with its iterator. -/
structure LinkedList (α : Type) where
  nodes : List (Nat × α)
  /-- The iterator of the next node. -/
  next : Nat
  fresh : ∀ node ∈ nodes, node.1 < next
  nodup : (nodes.map Prod.fst).Nodup

namespace LinkedList

variable {α : Type}

def empty : LinkedList α := ⟨[], 0, by simp, by simp⟩

/-- What an iterator points to; `none` when it is not valid. -/
def get? (l : LinkedList α) (it : Nat) : Option α :=
  (l.nodes.find? fun node => node.1 = it).map Prod.snd

def toList (l : LinkedList α) : List α := l.nodes.map Prod.snd

def length (l : LinkedList α) : Nat := l.nodes.length

/-- `insert` at the end: the new iterator is the `next` of the old list. -/
def pushBack (l : LinkedList α) (a : α) : LinkedList α where
  nodes := l.nodes ++ [(l.next, a)]
  next := l.next + 1
  fresh := by
    intro node h
    rcases List.mem_append.mp h with h | h
    · exact Nat.lt_succ_of_lt (l.fresh node h)
    · simp_all
  nodup := by
    rw [List.map_append, List.nodup_append]
    refine ⟨l.nodup, by simp, ?_⟩
    intro it hit it' hit'
    obtain ⟨node, hnode, rfl⟩ := List.mem_map.mp hit
    obtain rfl : it' = l.next := by simpa using hit'
    exact Nat.ne_of_lt (l.fresh node hnode)

def erase (l : LinkedList α) (it : Nat) : LinkedList α where
  nodes := l.nodes.filter fun node => node.1 ≠ it
  next := l.next
  fresh := fun node h => l.fresh node (List.mem_of_mem_filter h)
  nodup := (List.filter_sublist.map Prod.fst).nodup l.nodup

@[simp] theorem get?_empty (it : Nat) : (empty : LinkedList α).get? it = none :=
  rfl

@[simp] theorem toList_empty : (empty : LinkedList α).toList = [] := rfl

theorem length_toList (l : LinkedList α) : l.toList.length = l.length :=
  List.length_map _

theorem get?_eq_some_iff {l : LinkedList α} {it : Nat} {a : α} :
    l.get? it = some a ↔ (it, a) ∈ l.nodes := by
  constructor
  · intro h
    obtain ⟨node, hfind, rfl⟩ := Option.map_eq_some_iff.mp h
    have hit : node.1 = it := by simpa using List.find?_some hfind
    rw [← hit]
    exact List.mem_of_find?_eq_some hfind
  · intro h
    cases hfind : l.nodes.find? fun node => node.1 = it with
    | none =>
        have hnone := List.find?_eq_none.mp hfind (it, a) h
        simp at hnone
    | some node =>
        have hit : node.1 = it := by simpa using List.find?_some hfind
        have hsame : node = (it, a) :=
          List.inj_on_of_nodup_map l.nodup (List.mem_of_find?_eq_some hfind) h hit
        simp [get?, hfind, hsame]

theorem mem_toList {l : LinkedList α} {a : α} :
    a ∈ l.toList ↔ ∃ it, l.get? it = some a := by
  simp only [toList, List.mem_map, get?_eq_some_iff]
  constructor
  · rintro ⟨⟨it, b⟩, hmem, rfl⟩
    exact ⟨it, hmem⟩
  · rintro ⟨it, hmem⟩
    exact ⟨(it, a), hmem, rfl⟩

@[simp] theorem get?_next (l : LinkedList α) : l.get? l.next = none := by
  rw [Option.eq_none_iff_forall_ne_some]
  intro a h
  have hlt := l.fresh _ (get?_eq_some_iff.mp h)
  exact Nat.lt_irrefl _ hlt

theorem get?_pushBack (l : LinkedList α) (a : α) (it : Nat) :
    (l.pushBack a).get? it = if it = l.next then some a else l.get? it := by
  ext b
  rw [get?_eq_some_iff]
  show (it, b) ∈ l.nodes ++ [(l.next, a)] ↔ _
  rw [List.mem_append, ← get?_eq_some_iff, List.mem_singleton, Prod.mk.injEq]
  by_cases hit : it = l.next
  · simp [hit, eq_comm]
  · simp [hit]

theorem get?_erase (l : LinkedList α) (it it' : Nat) :
    (l.erase it).get? it' = if it' = it then none else l.get? it' := by
  ext a
  rw [get?_eq_some_iff]
  show (it', a) ∈ l.nodes.filter _ ↔ _
  rw [List.mem_filter, ← get?_eq_some_iff]
  by_cases hit : it' = it
  · simp [hit]
  · simp [hit]

@[simp] theorem toList_pushBack (l : LinkedList α) (a : α) :
    (l.pushBack a).toList = l.toList ++ [a] := by
  simp [toList, pushBack]

theorem length_pushBack (l : LinkedList α) (a : α) :
    (l.pushBack a).length = l.length + 1 := by
  rw [← length_toList, toList_pushBack, List.length_append, length_toList]
  rfl

private theorem perm_filter_ne {nodes : List (Nat × α)} {it : Nat} {a : α}
    (hnodup : (nodes.map Prod.fst).Nodup) (h : (it, a) ∈ nodes) :
    nodes.Perm ((it, a) :: nodes.filter fun node => node.1 ≠ it) := by
  apply (List.perm_ext_iff_of_nodup hnodup.of_map _).mpr
  · intro node
    rw [List.mem_cons, List.mem_filter]
    by_cases hit : node.1 = it
    · have hsame : node ∈ nodes ↔ node = (it, a) := by
        constructor
        · intro hmem
          exact List.inj_on_of_nodup_map hnodup hmem h hit
        · intro heq
          rwa [heq]
      simp [hit, hsame]
    · have hne : node ≠ (it, a) := by
        intro heq
        exact hit (by rw [heq])
      simp [hit, hne]
  · rw [List.nodup_cons]
    exact ⟨by simp, hnodup.of_map.filter _⟩

theorem toList_perm_erase {l : LinkedList α} {it : Nat} {a : α}
    (h : l.get? it = some a) : l.toList.Perm (a :: (l.erase it).toList) :=
  (perm_filter_ne l.nodup (get?_eq_some_iff.mp h)).map Prod.snd

theorem length_erase {l : LinkedList α} {it : Nat} {a : α}
    (h : l.get? it = some a) : l.length = (l.erase it).length + 1 := by
  rw [← length_toList, (toList_perm_erase h).length_eq, List.length_cons,
    length_toList]

/-- Elements with one image sit at one iterator only, if the images of
different iterators differ. -/
theorem nodup_map {β : Type} {l : LinkedList α} (f : α → β)
    (h : ∀ it it' a a', l.get? it = some a → l.get? it' = some a' → f a = f a' →
      it = it') : (l.toList.map f).Nodup := by
  rw [toList, List.map_map]
  apply List.Nodup.map_on _ l.nodup.of_map
  intro node hnode node' hnode' heq
  apply List.inj_on_of_nodup_map l.nodup hnode hnode'
  exact h _ _ node.2 node'.2 (get?_eq_some_iff.mpr hnode)
    (get?_eq_some_iff.mpr hnode') heq

end LinkedList

end Agrarian.Lib

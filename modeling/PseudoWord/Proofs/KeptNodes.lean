import PseudoWord.Proofs.FreeId
import PseudoWord.Proofs.RowEffect

namespace PseudoWord

namespace Graph

/-- Every node of `g` still has its place in `h`, and it is related to what stands there now. -/
def Carries (rel : Node → Node → Prop) (g h : Graph) : Prop :=
  ∀ id n, g.node? id = some n → ∃ m, h.node? id = some m ∧ rel n m

variable {rel : Node → Node → Prop} {g h k : Graph}

section Composed

variable (compose : ∀ {n m l : Node}, rel n m → rel m l → rel n l)

include compose

theorem Carries.trans (first : g.Carries rel h) (second : h.Carries rel k) : g.Carries rel k := by
  intro id n found
  obtain ⟨m, middle, kept⟩ := first id n found
  obtain ⟨last, atLast, further⟩ := second id m middle
  exact ⟨last, atLast, compose kept further⟩

end Composed

section Steps

variable (same : ∀ n, rel n n)

include same

theorem carries_refl (g : Graph) : g.Carries rel g := fun _ n found => ⟨n, found, same n⟩

theorem carries_put {id : NodeId} {n : Node} (kept : ∀ old, g.node? id = some old → rel old n) :
    g.Carries rel (g.put id n) := by
  intro other old found
  rw [node?_put]
  split
  · rename_i atId
    exact ⟨n, rfl, kept old (atId ▸ found)⟩
  · exact ⟨old, found, same old⟩

theorem carries_updateNode {id : NodeId} {f : Node → Option Node}
    (kept : ∀ n, g.node? id = some n → rel n ((f n).getD n)) :
    g.Carries rel (g.updateNode id f).graph := by
  rw [updateNode]
  cases found : g.node? id with
  | none => exact carries_refl same g
  | some n =>
    refine carries_put same fun old atId => ?_
    cases found.symm.trans atId
    exact kept n found

theorem carries_ensureNode (g : Graph) (id : NodeId) : g.Carries rel (g.ensureNode id) :=
  carries_put same fun old found => nodeOrNew_of_some found ▸ same old

/-- As long as there are ids left, a new node takes the place of none. -/
theorem carries_createNode (few : g.size < UInt64.size) (fragments : List String) :
    g.Carries rel (g.createNode fragments).2 := by
  refine carries_put same fun old taken => ?_
  rw [node?_nextFreeId few] at taken
  cases taken

end Steps

section Sequences

variable (same : ∀ n, rel n n) (compose : ∀ {n m l : Node}, rel n m → rel m l → rel n l)

include same compose

theorem carries_foldl {α : Type} {f : Graph → α → Graph} (step : ∀ (g : Graph) a, g.Carries rel (f g a))
    (items : List α) (g : Graph) : g.Carries rel (items.foldl f g) := by
  induction items generalizing g with
  | nil => exact carries_refl same g
  | cons item rest ih => exact (step g item).trans compose (ih _)

theorem carries_addLink {source target : NodeId} {weight : Int64}
    (kept : ∀ n, g.node? source = some n → rel n (n.addLink target weight)) :
    g.Carries rel (g.addLink source target weight).graph := by
  rw [addLink]
  split
  · rename_i known
    refine (carries_ensureNode same g target).trans compose (carries_updateNode same fun n found => ?_)
    obtain ⟨old, atSource⟩ := Option.isSome_iff_exists.mp (Bool.and_eq_true_iff.mp known).1
    cases (node?_ensureNode_of_some atSource target).symm.trans found
    exact kept n atSource
  · exact carries_refl same g

end Sequences

end Graph

end PseudoWord

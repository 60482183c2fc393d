import Edict.Node

namespace Edict

/-! # The parts of an expression

Every expression in a tree, each before its own parts and these from left to right.  What is said of
"every operation in the tree" or of its leaves in their order is said of this list.  `postorder` has
the same expressions, each behind its own parts: the order in which they are folded.
-/

namespace Node

mutual

/-- The expressions that the tree is made of, itself included. -/
def subtrees : Node → List Node
  | construct typeName fields => construct typeName fields :: allSubtrees fields
  | list element items => list element items :: allSubtrees items
  | apply op operands => apply op operands :: allSubtrees operands
  | n => [n]

/-- The expressions that the trees are made of, one tree after the other. -/
def allSubtrees : List Node → List Node
  | [] => []
  | n :: ns => n.subtrees ++ allSubtrees ns

end

mutual

/-- The expressions that the tree is made of, each behind its own parts. -/
def postorder : Node → List Node
  | construct typeName fields => allPostorder fields ++ [construct typeName fields]
  | list element items => allPostorder items ++ [list element items]
  | apply op operands => allPostorder operands ++ [apply op operands]
  | n => [n]

/-- The expressions that the trees are made of, one tree after the other. -/
def allPostorder : List Node → List Node
  | [] => []
  | n :: ns => n.postorder ++ allPostorder ns

end

def isOperation : Node → Bool
  | apply _ _ => true
  | _ => false

/-- A tree is a subtree of itself, in front of those of its parts. -/
theorem subtrees_apply (op : Op) (operands : List Node) :
    (apply op operands).subtrees = apply op operands :: allSubtrees operands := by
  rw [subtrees]

theorem subtrees_list (element : Kind) (items : List Node) :
    (list element items).subtrees = list element items :: allSubtrees items := by
  rw [subtrees]

theorem subtrees_construct (typeName : String) (fields : List Node) :
    (construct typeName fields).subtrees = construct typeName fields :: allSubtrees fields := by
  rw [subtrees]

section

variable {n : Node} (happly : ∀ op operands, n ≠ apply op operands)
  (hlist : ∀ element items, n ≠ list element items)
  (hconstruct : ∀ typeName fields, n ≠ construct typeName fields)

include happly hlist hconstruct

/-- A leaf has no other subtree. -/
theorem subtrees_leaf : n.subtrees = [n] := by
  rw [subtrees] <;> assumption

theorem postorder_leaf : n.postorder = [n] := by
  rw [postorder] <;> assumption

end

theorem allSubtrees_append (ns ms : List Node) :
    allSubtrees (ns ++ ms) = allSubtrees ns ++ allSubtrees ms := by
  induction ns with
  | nil => rw [List.nil_append, allSubtrees, List.nil_append]
  | cons n ns ih => rw [List.cons_append, allSubtrees, allSubtrees, ih, List.append_assoc]

/-- The subtrees of several trees are those of each of them. -/
theorem mem_allSubtrees_iff {part : Node} {ns : List Node} :
    part ∈ allSubtrees ns ↔ ∃ n ∈ ns, part ∈ n.subtrees := by
  induction ns with
  | nil => simp [allSubtrees]
  | cons n ns ih => simp [allSubtrees, ih]

theorem mem_subtrees_self (n : Node) : n ∈ n.subtrees := by
  cases n <;> simp [subtrees]

/-- The parts of a tree: the tree itself, and the parts of those that it has. -/
theorem mem_subtrees_iff {n part : Node} {parts : List Node}
    (hparts : n.subtrees = n :: allSubtrees parts) :
    part ∈ n.subtrees ↔ part = n ∨ ∃ k ∈ parts, part ∈ k.subtrees := by
  rw [hparts, List.mem_cons, mem_allSubtrees_iff]

/-- A part of a part is a part. -/
theorem subtrees_trans {n part k : Node} (hpart : part ∈ n.subtrees) (hk : k ∈ part.subtrees) :
    k ∈ n.subtrees := by
  have hparts : ∀ {n : Node} {parts : List Node}, n.subtrees = n :: allSubtrees parts →
      (part ∈ allSubtrees parts → k ∈ allSubtrees parts) → part ∈ n.subtrees → k ∈ n.subtrees := by
    intro n parts hparts ih hpart
    rw [hparts] at hpart
    rcases List.mem_cons.mp hpart with rfl | hpart
    · exact hk
    · rw [hparts]
      exact List.mem_cons_of_mem _ (ih hpart)
  induction n using subtrees.induct
    (motive_2 := fun ns => part ∈ allSubtrees ns → k ∈ allSubtrees ns)
  with
  | case1 typeName fields ih => exact hparts (subtrees_construct typeName fields) ih hpart
  | case2 element items ih => exact hparts (subtrees_list element items) ih hpart
  | case3 op operands ih => exact hparts (subtrees_apply op operands) ih hpart
  | case4 n hconstruct hlist happly =>
    rw [subtrees_leaf happly hlist hconstruct, List.mem_singleton] at hpart
    rwa [← hpart]
  | case5 hpart => simp [allSubtrees] at hpart
  | case6 n ns hn hns hpart =>
    rw [allSubtrees, List.mem_append] at hpart ⊢
    exact hpart.imp hn hns

/-- What holds of all subtrees of several trees holds of all those of each. -/
theorem allSubtrees_all (p : Node → Bool) (ns : List Node) :
    (allSubtrees ns).all p = ns.all fun n => n.subtrees.all p := by
  induction ns with
  | nil => rfl
  | cons n ns ih => rw [allSubtrees, List.all_append, ih, List.all_cons]

/-- In post-order a tree comes behind its parts. -/
theorem postorder_apply (op : Op) (operands : List Node) :
    (apply op operands).postorder = allPostorder operands ++ [apply op operands] := by
  rw [postorder]

theorem postorder_list (element : Kind) (items : List Node) :
    (list element items).postorder = allPostorder items ++ [list element items] := by
  rw [postorder]

theorem postorder_construct (typeName : String) (fields : List Node) :
    (construct typeName fields).postorder
      = allPostorder fields ++ [construct typeName fields] := by
  rw [postorder]

/-- Both orders have the same expressions, each as often. -/
theorem postorder_perm_subtrees (n : Node) : n.postorder.Perm n.subtrees := by
  induction n using subtrees.induct
    (motive_2 := fun ns => (allPostorder ns).Perm (allSubtrees ns))
  with
  | case1 typeName fields ih =>
    rw [postorder, subtrees]
    exact (List.perm_append_singleton _ _).trans (ih.cons _)
  | case2 element items ih =>
    rw [postorder, subtrees]
    exact (List.perm_append_singleton _ _).trans (ih.cons _)
  | case3 op operands ih =>
    rw [postorder, subtrees]
    exact (List.perm_append_singleton _ _).trans (ih.cons _)
  | case4 n hconstruct hlist happly =>
    rw [postorder_leaf happly hlist hconstruct, subtrees_leaf happly hlist hconstruct]
  | case5 => exact .nil
  | case6 n ns hn hns =>
    rw [allPostorder, allSubtrees]
    exact hn.append hns

/-! ## Objects as literals -/

/-- Every object that stands in the tree as a literal is one that `p` holds of. -/
def ObjectsIn (p : ObjectRef → Prop) (n : Node) : Prop := ∀ v, object v ∈ n.subtrees → p v

/-- No object stands in the tree as a literal. -/
def ObjectFree (n : Node) : Prop := ∀ v, object v ∉ n.subtrees

section

variable {p : ObjectRef → Prop} {n part : Node} {parts : List Node}

/-- The objects of a subtree are objects of the tree. -/
theorem ObjectsIn.of_mem_subtrees (h : n.ObjectsIn p) (hpart : part ∈ n.subtrees) :
    part.ObjectsIn p :=
  fun v hmem => h v (subtrees_trans hpart hmem)

theorem ObjectsIn.of_mem (h : n.ObjectsIn p) (hparts : n.subtrees = n :: allSubtrees parts)
    (hpart : part ∈ parts) : part.ObjectsIn p :=
  h.of_mem_subtrees ((mem_subtrees_iff hparts).mpr (.inr ⟨part, hpart, mem_subtrees_self part⟩))

/-- The objects in a tree are those in its parts, unless it is one itself. -/
theorem ObjectsIn.of_parts (hself : ∀ v, n = object v → p v)
    (hparts : n.subtrees = n :: allSubtrees parts) (h : ∀ part ∈ parts, part.ObjectsIn p) :
    n.ObjectsIn p := by
  intro v hmem
  rcases (mem_subtrees_iff hparts).mp hmem with heq | ⟨part, hpart, hmem⟩
  · exact hself v heq.symm
  · exact h part hpart v hmem

/-- The parts of a tree without objects have none either. -/
theorem ObjectFree.of_mem_subtrees (h : n.ObjectFree) (hpart : part ∈ n.subtrees) :
    part.ObjectFree :=
  ObjectsIn.of_mem_subtrees h hpart

theorem ObjectFree.of_mem (h : n.ObjectFree) (hparts : n.subtrees = n :: allSubtrees parts)
    (hpart : part ∈ parts) : part.ObjectFree :=
  ObjectsIn.of_mem h hparts hpart

/-- A tree whose parts have no objects has none, unless it is one itself. -/
theorem ObjectFree.of_parts (hself : ∀ v, n ≠ object v)
    (hparts : n.subtrees = n :: allSubtrees parts) (h : ∀ part ∈ parts, part.ObjectFree) :
    n.ObjectFree :=
  ObjectsIn.of_parts hself hparts h

end

end Node

end Edict

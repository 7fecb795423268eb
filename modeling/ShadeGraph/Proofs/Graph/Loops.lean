import ShadeGraph.Proofs.Graph.Inlining
import ShadeGraph.Proofs.Graph.Sources

/-!
# Loops through compounds

An output of a compound takes from an input if nodes of its graph lead from the input socket of that name to the output
socket, and an output of any other node takes from all inputs. A graph *loops* if some output takes from itself, perhaps
through others.

Replacing a compound keeps a loop: each output of the compound moves to the copy that drives it, and what the compound
has conveyed is a path along the copies. A loop is a cycle of nodes, but not the other way round: a cycle through an
input of a compound that leads nowhere is gone when the compound is replaced.
-/

namespace ShadeGraph

open Relation

/-- Nodes lead from an input socket to an output socket. -/
def Graph.Conveys (g : Graph) (j k : Nat) : Prop :=
  ∃ a index b l, g.Connects (.ofNode a index) (.socket k) ∧ ReflTransGen g.Reads a b ∧
    g.Connects (.socket j) (.ofNode b l)

/-- The output with some index takes from the input. -/
def Node.Uses (n : Node) (i : Input) (index : Nat) : Prop :=
  match n.implementation with
  | .compound _ _ inner =>
    ∃ j socket, inner.inputSockets[j]? = some socket ∧ n.input? socket.name = some i ∧ inner.Conveys j index
  | _ => i ∈ n.inputs

theorem Node.uses_plain {n : Node} (hn : n.implementation.isCompound = false) {i : Input} {index : Nat} :
    n.Uses i index ↔ i ∈ n.inputs := by
  unfold Node.Uses
  split
  · rename_i hcompound
    rw [hcompound] at hn
    cases hn
  · rfl

theorem Node.uses_compound {n : Node} {inner : Graph} {name function : String}
    (hn : n.implementation = .compound name function inner) {i : Input} {index : Nat} :
    n.Uses i index ↔
      ∃ j socket, inner.inputSockets[j]? = some socket ∧ n.input? socket.name = some i ∧ inner.Conveys j index := by
  rw [Node.Uses, hn]

theorem Node.Uses.mem {n : Node} {i : Input} {index : Nat} (h : n.Uses i index) : i ∈ n.inputs := by
  unfold Node.Uses at h
  split at h
  · obtain ⟨_, _, -, hi, -⟩ := h
    exact List.mem_of_find?_eq_some hi
  · exact h

theorem find?_of_forall₂ {R : Input → Input → Prop} {l l' : List Input} (h : List.Forall₂ R l l')
    (hnames : l'.map Input.name = l.map Input.name) {name : String} {i : Input}
    (hi : l.find? (fun i => i.name == name) = some i) :
    ∃ j, l'.find? (fun j => j.name == name) = some j ∧ R i j := by
  induction h with
  | nil => cases hi
  | @cons a b l l' hab _ ih =>
    rw [List.map_cons, List.map_cons, List.cons.injEq] at hnames
    obtain ⟨hname, hnames⟩ := hnames
    rw [List.find?_cons] at hi ⊢
    rw [hname]
    split at hi
    · obtain rfl := Option.some.inj hi
      exact ⟨b, rfl, hab⟩
    · exact ih hnames hi

theorem Node.Replaces.uses {n m : Node} {f : Input → Except Error Input} {id : NodeId} {i : Input} {index : Nat}
    (hm : m.Replaces f id n) (hi : n.Uses i index) : ∃ j, f i = .ok j ∧ m.Uses j index := by
  have himplementation : m.implementation = n.implementation := (Graph.implementation_of_kind hm.kind_eq rfl).symm
  cases hn : n.implementation with
  | compound name function inner =>
    obtain ⟨l, socket, hsocket, hfind, hconveys⟩ := (Node.uses_compound hn).mp hi
    have hnames : m.inputs.map Input.name = n.inputs.map Input.name := by
      have hinputs := congrArg (fun k : Kind => k.inputs.map Prod.fst) hm.kind_eq
      simpa [Node.kind, Function.comp_def] using hinputs
    obtain ⟨j, hj, hij⟩ := find?_of_forall₂ hm.inputs hnames hfind
    exact ⟨j, hij, (Node.uses_compound (himplementation.trans hn)).mpr ⟨l, socket, hsocket, hj, hconveys⟩⟩
  | source code =>
    have hplain : n.implementation.isCompound = false := by rw [hn]; rfl
    obtain ⟨j, hj, hij⟩ := exists_right_of_forall₂ hm.inputs ((Node.uses_plain hplain).mp hi)
    exact ⟨j, hij, (Node.uses_plain (himplementation ▸ hplain)).mpr hj⟩
  | procedural code =>
    have hplain : n.implementation.isCompound = false := by rw [hn]; rfl
    obtain ⟨j, hj, hij⟩ := exists_right_of_forall₂ hm.inputs ((Node.uses_plain hplain).mp hi)
    exact ⟨j, hij, (Node.uses_plain (himplementation ▸ hplain)).mpr hj⟩

namespace Graph

open Rewiring

def Takes (g : Graph) (p q : PinRef) : Prop :=
  ∃ n ∈ g.nodes, p.owner = .node n.id ∧ ∃ i, n.Uses i p.index ∧ i.source = some q

/-- Some output takes from itself, perhaps through others. -/
def Loops (g : Graph) : Prop := ∃ p, TransGen g.Takes p p

variable {g h inner : Graph} {c n m : Node} {pairs : List (Node × Node)} {i j : Input} {p q : PinRef} {index : Nat}

theorem Loops.exists (hg : g.Loops) : ∃ p, TransGen (fun p q => g.Takes p q ∧ ∃ r, g.Takes q r) p p := by
  obtain ⟨p, hloop⟩ := hg
  obtain ⟨q, hpq, -⟩ := TransGen.head'_iff.mp hloop
  refine ⟨p, hloop.head_induction_on (motive := fun a _ => TransGen _ a p) ?_ ?_⟩
  · intro a hap
    exact .single ⟨hap, q, hpq⟩
  · intro a b hab hrest ih
    obtain ⟨r, hbr, -⟩ := TransGen.head'_iff.mp hrest
    exact .head ⟨hab, r, hbr⟩ ih

/-! ## Replacing a compound -/

/-- Where the value of an output comes from when the compound is replaced. -/
def moved (c : Node) (inner : Graph) (copies : List (NodeId × NodeId)) (p : PinRef) : PinRef :=
  if p.owner = .node c.id then
    match (inner.outputSockets[p.index]?).bind Input.source with
    | some ⟨.node old, index⟩ => ((copies.lookup old).map fun new => .ofNode new index).getD p
    | _ => p
  else p

section
variable {copies : List (NodeId × NodeId)} {old new : NodeId}

theorem moved_of_ne (hp : p.owner ≠ .node c.id) : moved c inner copies p = p := by rw [moved, if_neg hp]

theorem moved_of_driver (hdriver : inner.Connects (.ofNode old index) (.socket p.index))
    (hcopy : copies.lookup old = some new) (hp : p.owner = .node c.id) :
    moved c inner copies p = .ofNode new index := by
  obtain ⟨socket, hsocket, hsource⟩ := hdriver
  change inner.outputSockets[p.index]? = some socket at hsocket
  rw [moved, if_pos hp, hsocket, Option.bind_some, hsource, PinRef.ofNode]
  simp only [hcopy, Option.map_some, Option.getD_some]

theorem source_rewiredInput (hcopy : copies.lookup old = some new)
    (hj : rewiredInput c inner copies (.ofNode old index) i = .ok j) : j.source = some (.ofNode new index) := by
  simp only [rewiredInput, PinRef.ofNode, hcopy] at hj
  rw [← Except.ok.inj hj]
  rfl

theorem source_readerInput {k : Nat} {socket : Input} (hsocket : inner.outputSockets[k]? = some socket)
    (hdriver : inner.Connects (.ofNode old index) (.socket k)) (hcopy : copies.lookup old = some new)
    (hj : readerInput c inner copies socket i = .ok j) : j.source = some (.ofNode new index) := by
  obtain ⟨socket', hsocket', hsource⟩ := hdriver
  obtain rfl : socket = socket' := Option.some.inj (hsocket.symm.trans hsocket')
  obtain ⟨channels, -, hj⟩ := except_bind_eq_ok.mp hj
  simp only [hsource] at hj
  exact source_rewiredInput hcopy hj

theorem source_boundInput {socket : Output} {outer : Input} (hsocket : inner.inputSockets[index]? = some socket)
    (houter : c.input? socket.name = some outer) (hsource : outer.source = some q)
    (hj : boundInput c inner index i = .ok j) : j.source = some q := by
  simp only [boundInput, hsocket, houter, hsource] at hj
  obtain ⟨channels, -, hj⟩ := except_bind_eq_ok.mp hj
  rw [← Except.ok.inj hj]

end

section
variable (hin : Inlined g c inner pairs h)
include hin

theorem takes_outside (hg : g.Distinct) (hn : n ∈ g.nodes) (hne : n.id ≠ c.id) (hi : n.Uses i p.index)
    (hp : p.owner = .node n.id) (hsource : ∀ j, outerInput c inner (copyIds pairs) i = .ok j → j.source = some q) :
    h.Takes p q := by
  obtain ⟨m, hm, hreplaces⟩ := hin.exists_outside hg hn hne
  obtain ⟨j, hij, hj⟩ := hreplaces.uses hi
  exact ⟨m, hm, by rw [hreplaces.id_eq, hp], j, hj, hsource j hij⟩

theorem takes_inside (hinner : inner.Plain) {copy : Node × Node} (hcopy : copy ∈ pairs) (hi : i ∈ copy.1.inputs)
    (hsource : ∀ j, innerInput c inner (copyIds pairs) i = .ok j → j.source = some q) (index : Nat) :
    h.Takes (.ofNode copy.2.id index) q := by
  obtain ⟨m, hm, hreplaces⟩ := hin.exists_inside hcopy
  have hplain := hinner.flat copy.1 (hin.mem_inner hcopy)
  have huses : copy.1.Uses i index := (Node.uses_plain hplain).mpr hi
  obtain ⟨j, hij, hj⟩ := hreplaces.uses huses
  exact ⟨m, hm, by rw [hreplaces.id_eq]; rfl, j, hj, hsource j hij⟩

theorem exists_copy (hinner : inner.Distinct) {id : NodeId} (hid : id ∈ inner.ids) :
    ∃ copy ∈ pairs, copy.1.id = id ∧ (copyIds pairs).lookup id = some copy.2.id := by
  obtain ⟨n, hn, rfl⟩ := List.mem_map.mp hid
  obtain ⟨copy, hcopy, rfl⟩ := hin.exists_pair hn
  exact ⟨copy, hcopy, rfl, hin.lookup_copy hinner hcopy⟩

 /-- What a path of inner nodes to an input socket conveys, the copies take along the same path from what feeds the
compound there. -/
theorem takes_conveyed (hinner : inner.Plain) {a b : NodeId} {j l : Nat} {socket : Output} {outer : Input}
    (hpath : ReflTransGen inner.Reads a b) (hend : inner.Connects (.socket j) (.ofNode b l))
    (hsocket : inner.inputSockets[j]? = some socket) (houter : c.input? socket.name = some outer)
    (hsource : outer.source = some q) {new : NodeId} (hnew : (copyIds pairs).lookup a = some new) (index : Nat) :
    TransGen h.Takes (.ofNode new index) q := by
  -- The induction is on the path, from its end.
  induction hpath using ReflTransGen.head_induction_on generalizing new index with
  | refl =>
    obtain ⟨copy, hcopy, rfl, rfl⟩ := lookup_copyIds hnew
    obtain ⟨i, hi, hi'⟩ := hend
    simp only [input?, PinRef.ofNode, hinner.distinct.node?_of_mem (hin.mem_inner hcopy), Option.bind_some] at hi
    refine .single (takes_inside hin hinner hcopy (List.mem_of_getElem? hi) (fun x hx => ?_) index)
    simp only [innerInput, hi', PinRef.socket, rewiredInput] at hx
    exact source_boundInput hsocket houter hsource hx
  | @head a a' hreads _ ih =>
    obtain ⟨copy, hcopy, rfl, rfl⟩ := lookup_copyIds hnew
    obtain ⟨n, hn, hmem, ha'⟩ := hreads
    obtain rfl : copy.1 = n := hinner.distinct.eq_of_id (hin.mem_inner hcopy) (mem_of_node? hn) (id_of_node? hn).symm
    obtain ⟨i, hi, k, hi'⟩ := mem_sources_iff.mp hmem
    obtain ⟨copy', -, -, hnew'⟩ := exists_copy hin hinner.distinct ha'
    refine .head (takes_inside hin hinner hcopy hi (fun x hx => ?_) index) (ih hnew' k)
    simp only [innerInput, hi'] at hx
    exact source_rewiredInput hnew' hx

section
variable {name function : String} (hg : g.Distinct) (hinner : inner.Plain) (hc : c ∈ g.nodes)
  (himplementation : c.implementation = .compound name function inner)
include hg hc

omit hin in
theorem uses_of_takes (hp : p.owner = .node c.id) (htakes : g.Takes p q) :
    ∃ i, c.Uses i p.index ∧ i.source = some q := by
  obtain ⟨n, hn, howner, huses⟩ := htakes
  obtain rfl : n = c := hg.eq_of_id hn hc (Owner.node.inj (howner.symm.trans hp))
  exact huses

include hinner himplementation

theorem exists_driver (hp : p.owner = .node c.id) (htakes : g.Takes p q) : ∃ old index new,
    inner.Connects (.ofNode old index) (.socket p.index) ∧ (copyIds pairs).lookup old = some new ∧
      moved c inner (copyIds pairs) p = .ofNode new index := by
  obtain ⟨i, hi, -⟩ := uses_of_takes hg hc hp htakes
  obtain ⟨j, socket, -, -, a, index, b, l, hdriver, hpath, hend⟩ := (Node.uses_compound himplementation).mp hi
  have ha : a ∈ inner.ids := by
    rcases ReflTransGen.cases_head hpath with rfl | ⟨a', hreads, -⟩
    · obtain ⟨x, hx, -⟩ := hend
      exact mem_ids_of_input? hx rfl
    · exact hreads.left
  obtain ⟨copy, -, -, hcopy⟩ := exists_copy hin hinner.distinct ha
  exact ⟨a, index, copy.2.id, hdriver, hcopy, moved_of_driver hdriver hcopy hp⟩

/-- One output that takes from another one, which takes from something in turn, does so along a path behind the
replacement. -/
theorem takes_moved (hself : c.id ∉ c.sources) (htakes : g.Takes p q) (hq : ∃ r, g.Takes q r) :
    TransGen h.Takes (moved c inner (copyIds pairs) p) (moved c inner (copyIds pairs) q) := by
  by_cases hp : p.owner = .node c.id
  · obtain ⟨i, hi, hsource⟩ := uses_of_takes hg hc hp htakes
    have hq' : q.owner ≠ .node c.id := ne_self_of_source hself hi.mem hsource
    obtain ⟨j, socket, hsocket, houter, a, index, b, l, hdriver, hpath, hend⟩ :=
      (Node.uses_compound himplementation).mp hi
    obtain ⟨a', index', new, hdriver', hnew, hmoved⟩ := exists_driver hin hg hinner hc himplementation hp htakes
    obtain ⟨rfl, rfl⟩ : a = a' ∧ index = index' := by
      obtain ⟨x, hx, hs⟩ := hdriver
      obtain ⟨x', hx', hs'⟩ := hdriver'
      obtain rfl := Option.some.inj (hx.symm.trans hx')
      simpa [PinRef.ofNode] using Option.some.inj (hs.symm.trans hs')
    rw [hmoved, moved_of_ne hq']
    exact takes_conveyed hin hinner hpath hend hsocket houter hsource hnew index
  · obtain ⟨n, hn, howner, i, hi, hsource⟩ := htakes
    have hne : n.id ≠ c.id := fun heq => hp (heq ▸ howner)
    rw [moved_of_ne hp]
    refine .single (takes_outside hin hg hn hne hi howner fun j hj => ?_)
    obtain ⟨owner, k⟩ := q
    by_cases hq' : owner = .node c.id
    · obtain rfl := hq'
      obtain ⟨r, hr⟩ := hq
      obtain ⟨old, index, new, hdriver, hnew, hmoved⟩ := exists_driver hin hg hinner hc himplementation rfl hr
      obtain ⟨socket, hsocket, -⟩ := id hdriver
      change inner.outputSockets[k]? = some socket at hsocket
      simp only [outerInput, hsource, if_true, hsocket] at hj
      rw [hmoved]
      exact source_readerInput hsocket hdriver hnew hj
    · rw [moved_of_ne hq']
      have hsame : outerInput c inner (copyIds pairs) i = .ok i := by
        rw [outerInput, hsource]
        cases owner with
        | graph => rfl
        | node id =>
          have hne : id ≠ c.id := fun heq => hq' (by rw [heq])
          simp only [if_neg hne]
      rw [← Except.ok.inj (hsame.symm.trans hj)]
      exact hsource

/-- **A loop stays a loop** when a compound that does not read itself is replaced. -/
theorem loops_inlined (hself : c.id ∉ c.sources) (hloops : g.Loops) : h.Loops := by
  obtain ⟨p, hloop⟩ := hloops.exists
  refine ⟨moved c inner (copyIds pairs) p, TransGen.lift' (moved c inner (copyIds pairs)) ?_ p p hloop⟩
  rintro p q ⟨htakes, hq⟩
  exact takes_moved hin hg hinner hc himplementation hself htakes hq

end
end

/-! ## Cycles -/

theorem Loops.cyclic (hg : g.Distinct) (hloops : g.Loops) : g.Cyclic := by
  have hreads : ∀ {p q}, g.Takes p q → (∃ r, g.Takes q r) →
      ∃ a b, p.owner = .node a ∧ q.owner = .node b ∧ g.Reads a b := by
    rintro p q ⟨n, hn, hp, i, hi, hsource⟩ ⟨r, m, hm, hq, -⟩
    obtain ⟨owner, index⟩ := q
    obtain rfl : owner = .node m.id := hq
    refine ⟨n.id, m.id, hp, rfl, n, hg.node?_of_mem hn, ?_, mem_ids_of_mem hm⟩
    exact mem_sources_iff.mpr ⟨i, hi.mem, index, hsource⟩
  obtain ⟨p, hloop⟩ := hloops.exists
  have hpath : ∀ q, TransGen (fun p q => g.Takes p q ∧ ∃ r, g.Takes q r) p q →
      ∃ a b, p.owner = .node a ∧ q.owner = .node b ∧ TransGen g.Reads a b := by
    intro q hq
    induction hq with
    | single hstep =>
      obtain ⟨a, b, hp, hq, hab⟩ := hreads hstep.1 hstep.2
      exact ⟨a, b, hp, hq, .single hab⟩
    | tail _ hstep ih =>
      obtain ⟨a, b, hp, hq, hab⟩ := ih
      obtain ⟨b', d, hq', hr, hbd⟩ := hreads hstep.1 hstep.2
      obtain rfl := Owner.node.inj (hq.symm.trans hq')
      exact ⟨a, d, hp, hr, hab.tail hbd⟩
  obtain ⟨a, b, ha, hb, hab⟩ := hpath p hloop
  obtain rfl := Owner.node.inj (ha.symm.trans hb)
  exact ⟨a, hab⟩

theorem Cyclic.sort (hg : g.Cyclic) : ∃ names, g.sort = .error (.cycle g.name names) := by
  cases hsort : g.sort with
  | ok sorted =>
    obtain ⟨front, back, -, hplaced, hall, -⟩ := order_of_sort hsort
    exact absurd hg (hplaced.not_cyclic fun id hid => (hall id).mpr hid)
  | error e =>
    obtain ⟨chain, -, rfl⟩ := cycle_of_sort hsort
    exact ⟨_, rfl⟩

end Graph
end ShadeGraph

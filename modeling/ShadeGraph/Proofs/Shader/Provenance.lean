import ShadeGraph.Proofs.Graph.Build
import ShadeGraph.Proofs.Shader.Identities

/-!
# Where the graphs of compounds come from

The graph of a compound is built anew for each node that it implements, at some depth and with some compounds entered.
All these graphs of one node graph are the same up to the identities of their nodes: what a step of building gives
depends only on the supply of identities, on the texts of source files, and on whether any compound is entered.
-/

namespace ShadeGraph.Build

open Function

variable {α β : Type} {r : Request} {s s' t t' : BuildState}

/-! ## What building depends on -/

/-- The compounds that are entered and the texts of source files are as they were. -/
structure Keeps (r : Request) (s s' : BuildState) : Prop where
  stack : s'.stack = s.stack
  view : view r.searchPath r.files s'.cache = view r.searchPath r.files s.cache

/-- States that look the same to building. -/
structure Like (r : Request) (s t : BuildState) : Prop where
  ids : s.ids = t.ids
  view : view r.searchPath r.files s.cache = view r.searchPath r.files t.cache
  inside : s.stack.isEmpty = t.stack.isEmpty

theorem Keeps.refl (s : BuildState) : Keeps r s s := ⟨rfl, rfl⟩

theorem Keeps.trans {u : BuildState} (h : Keeps r s t) (h' : Keeps r t u) : Keeps r s u :=
  ⟨h'.stack.trans h.stack, h'.view.trans h.view⟩

theorem Like.after (h : Like r s t) (hids : s'.ids = t'.ids) (hs : Keeps r s s') (ht : Keeps r t t') : Like r s' t' :=
  ⟨hids, by rw [hs.view, ht.view, h.view], by rw [hs.stack, ht.stack, h.inside]⟩

/-- Two steps that give the same if both end well. -/
def Agrees (r : Request) (m m' : Build α) : Prop :=
  ∀ ⦃s t a b s' t'⦄, Like r s t → m s = .ok a s' → m' t = .ok b t' →
    a = b ∧ s'.ids = t'.ids ∧ Keeps r s s' ∧ Keeps r t t'

namespace Agrees

theorem bind {m m' : Build α} {k k' : α → Build β} (hm : Agrees r m m') (hk : ∀ a, Agrees r (k a) (k' a)) :
    Agrees r (m >>= k) (m' >>= k') := by
  intro s t c d s' t' hst h h'
  obtain ⟨a, s₁, hs₁, hs'⟩ := state_bind_eq_ok.mp h
  obtain ⟨b, t₁, ht₁, ht'⟩ := state_bind_eq_ok.mp h'
  obtain ⟨rfl, hids, hs, ht⟩ := hm hst hs₁ ht₁
  obtain ⟨heq, hids', hks, hkt⟩ := hk a (hst.after hids hs ht) hs' ht'
  exact ⟨heq, hids', hs.trans hks, ht.trans hkt⟩

theorem pure (a : α) : Agrees r (pure a) (pure a) := by
  intro s t c d s' t' hst h h'
  obtain ⟨rfl, rfl⟩ := state_pure_eq_ok.mp h
  obtain ⟨rfl, rfl⟩ := state_pure_eq_ok.mp h'
  exact ⟨rfl, hst.ids, .refl _, .refl _⟩

theorem throw (e : Error) (m : Build α) : Agrees r (throw e) m :=
  fun _ _ _ _ _ _ _ h _ => absurd h state_throw_ne_ok

theorem mapM {f f' : α → Build β} (hf : ∀ a, Agrees r (f a) (f' a)) (l : List α) :
    Agrees r (l.mapM f) (l.mapM f') := by
  induction l with
  | nil => exact pure []
  | cons a l ih =>
    rw [List.mapM_cons, List.mapM_cons]
    exact bind (hf a) fun b => bind ih fun bs => pure (b :: bs)

/-! ## Implementations -/

theorem source (file : String) : Agrees r (source r file) (source r file) := by
  intro s t a b s' t' hst h h'
  rcases source_cases r file s with ⟨text, cache, htext, hcache, hsource⟩ | ⟨e, -, hsource⟩
  · rcases source_cases r file t with ⟨text', cache', htext', hcache', hsource'⟩ | ⟨e, -, hsource'⟩
    · obtain ⟨rfl, rfl⟩ := EStateM.Result.ok.inj (h.symm.trans hsource)
      obtain ⟨rfl, rfl⟩ := EStateM.Result.ok.inj (h'.symm.trans hsource')
      rw [hst.view] at htext
      exact ⟨Except.ok.inj (htext.symm.trans htext'), hst.ids, ⟨rfl, hcache⟩, ⟨rfl, hcache'⟩⟩
    · cases h'.symm.trans hsource'
  · cases h.symm.trans hsource

theorem sourceCode (d : SourceDef) : Agrees r (sourceCode r d) (sourceCode r d) := by
  unfold Build.sourceCode
  cases d.source with
  | some text => exact bind (pure text) fun _ => pure _
  | none =>
    cases d.file with
    | some file => exact bind (source file) fun _ => pure _
    | none => exact bind (throw _ _) fun _ => pure _

section
variable {enter enter' : NodeDef → Build Implementation} (henter : ∀ d, Agrees r (enter d) (enter' d))
include henter

theorem implementation (d : NodeDef) : Agrees r (implementation r enter d) (implementation r enter' d) := by
  unfold Build.implementation
  cases r.generator.registry.find? d.category with
  | some p => exact pure _
  | none =>
    dsimp only
    cases r.document.source? d.name r.generator.language.name (target r) with
    | some code => exact bind (sourceCode code) fun _ => pure _
    | none => exact henter d

/-! ## Graphs -/

theorem node (scope : String) (n : NodeInstance) : Agrees r (node r enter scope n) (node r enter' scope n) := by
  intro s t a b s' t' hst h h'
  obtain ⟨d, traits, how, inputs, outputs, s₁, hd, htraits, hhow, hinputs, houtputs, rfl, rfl⟩ := node_cases h
  obtain ⟨d', traits', how', inputs', outputs', t₁, hd', htraits', hhow', hinputs', houtputs', rfl, rfl⟩ :=
    node_cases h'
  obtain rfl := Option.some.inj (hd.symm.trans hd')
  obtain rfl := Except.ok.inj (htraits.symm.trans htraits')
  obtain rfl := Except.ok.inj (hinputs.symm.trans hinputs')
  obtain rfl := Except.ok.inj (houtputs.symm.trans houtputs')
  obtain ⟨rfl, hids, hs, ht⟩ := implementation henter d hst hhow hhow'
  rw [hids]
  exact ⟨rfl, rfl, ⟨hs.stack, hs.view⟩, ⟨ht.stack, ht.view⟩⟩

theorem wire (d : NodeGraph) : Agrees r (wire r enter d) (wire r enter' d) := by
  intro s t w w' s' t' hst h h'
  obtain ⟨inputs, outputs, nodes, w₁, ⟨pins, hpins, hinputs⟩, houtputs, hnodes, hw₁, hw⟩ := wire_cases h
  obtain ⟨inputs', outputs', nodes', w₁', ⟨pins', hpins', hinputs'⟩, houtputs', hnodes', hw₁', hw'⟩ := wire_cases h'
  obtain rfl := Except.ok.inj (hpins.symm.trans hpins')
  obtain rfl := Except.ok.inj (hinputs.symm.trans hinputs')
  obtain rfl := Except.ok.inj (houtputs.symm.trans houtputs')
  obtain ⟨rfl, hids, hs, ht⟩ := mapM (node henter d.name) d.nodes hst hnodes hnodes'
  obtain rfl := Except.ok.inj (hw₁.symm.trans hw₁')
  exact ⟨Except.ok.inj (hw.symm.trans hw'), hids, hs, ht⟩

end

theorem finish (publish : Bool) (g : Graph) : Agrees r (finish r publish g) (finish r publish g) := by
  intro s t g₁ g₂ s' t' hst h h'
  obtain ⟨w, u, hw, k, hk, rfl, rfl⟩ := finish_cases h
  obtain ⟨w', u', hw', k', hk', rfl, rfl⟩ := finish_cases h'
  have hflat : w = w' ∧ s'.ids = t'.ids ∧ Keeps r s s' ∧ Keeps r t t' := by
    rcases hw with ⟨hon, hflatten⟩ | ⟨hoff, rfl, rfl⟩
    · rcases hw' with ⟨-, hflatten'⟩ | ⟨hoff, -⟩
      · obtain ⟨ids, hrun, rfl⟩ := flatten_cases hflatten
        obtain ⟨ids', hrun', rfl⟩ := flatten_cases hflatten'
        rw [hst.ids, hrun'] at hrun
        obtain ⟨-, hpair⟩ := EStateM.Result.ok.inj hrun
        obtain ⟨rfl, rfl⟩ := Prod.mk.inj hpair
        exact ⟨rfl, rfl, ⟨rfl, rfl⟩, ⟨rfl, rfl⟩⟩
      · rw [hon] at hoff
        cases hoff
    · rcases hw' with ⟨hon, -⟩ | ⟨-, rfl, rfl⟩
      · rw [hon] at hoff
        cases hoff
      · exact ⟨rfl, hst.ids, .refl _, .refl _⟩
  obtain ⟨rfl, hrest⟩ := hflat
  obtain rfl := Except.ok.inj (hk.symm.trans hk')
  exact ⟨rfl, hrest⟩

theorem assemble {enter enter' : NodeDef → Build Implementation} (henter : ∀ d, Agrees r (enter d) (enter' d))
    (d : NodeGraph) : Agrees r (assemble r enter d) (assemble r enter' d) := by
  intro s t g g' s' t' hst h h'
  obtain ⟨w, s₁, hw, hg⟩ := assemble_cases h
  obtain ⟨w', t₁, hw', hg'⟩ := assemble_cases h'
  obtain ⟨rfl, hids, hs, ht⟩ := wire henter d hst hw hw'
  have hst₁ := hst.after hids hs ht
  rw [← hst₁.inside] at hg'
  obtain ⟨heq, hids', hs', ht'⟩ := finish _ w hst₁ hg hg'
  exact ⟨heq, hids', hs.trans hs', ht.trans ht'⟩

/-! ## Graphs inside of graphs -/

theorem compound {build build' : NodeGraph → Build Graph} (hbuild : ∀ g, Agrees r (build g) (build' g)) (d : NodeDef) :
    Agrees r (compound r build d) (compound r build' d) := by
  intro s t how how' s' t' hst h h'
  obtain ⟨inner, g, s₁, hinner, -, hg, rfl, rfl⟩ := compound_cases h
  obtain ⟨inner', g', t₁, hinner', -, hg', rfl, rfl⟩ := compound_cases h'
  obtain rfl := Option.some.inj (hinner.symm.trans hinner')
  have hentered : Like r { s with stack := inner.name :: s.stack } { t with stack := inner.name :: t.stack } :=
    ⟨hst.ids, hst.view, rfl⟩
  obtain ⟨rfl, hids, hs, ht⟩ := hbuild inner hentered hg hg'
  refine ⟨rfl, hids, ⟨?_, hs.view⟩, ⟨?_, ht.view⟩⟩
  · rw [hs.stack]
    rfl
  · rw [ht.stack]
    rfl

/-- The graph of a node graph does not depend on the depth either, if there is enough of it. -/
theorem nestedGraph (depth : Nat) : ∀ depth' g, Agrees r (nestedGraph r depth g) (nestedGraph r depth' g) := by
  induction depth with
  | zero => exact fun depth' g => throw _ _
  | succ depth ih =>
    intro depth' g
    cases depth' with
    | zero => exact fun _ _ _ _ _ _ _ _ h => absurd h state_throw_ne_ok
    | succ depth' => exact assemble (compound (ih depth')) g

end Agrees

/-- **All graphs of a compound are the same one**, up to the identities of its nodes. -/
theorem nestedGraph_unique {depth depth' : Nat} {d : NodeGraph} {g g' : Graph} (hs : Injective s.ids.pick)
    (ht : Injective t.ids.pick)
    (hview : view r.searchPath r.files s.cache = view r.searchPath r.files t.cache)
    (hinside : s.stack.isEmpty = t.stack.isEmpty) (h : nestedGraph r depth d s = .ok g s')
    (h' : nestedGraph r depth' d t = .ok g' t') :
    ∃ k f f', Injective f ∧ Injective f' ∧ g = Graph.rename f k ∧ g' = Graph.rename f' k := by
  have hnumbered {s s' : BuildState} {depth : Nat} {g : Graph} (hs : Injective s.ids.pick)
      (h : nestedGraph r depth d s = .ok g s') : ∃ k u, nestedGraph r depth d { s with ids := {} } = .ok k u ∧
        Injective s.ids.numbering ∧ g = Graph.rename s.ids.numbering k := by
    have hdistinct : s.ids.Distinct := fun j k hjk => Nat.add_left_cancel (hs hjk)
    have hmatch := (tracks_numbered (r := r) hdistinct.numbering).nestedGraph depth s.stack d { s with ids := {} } s
      ⟨rfl, rfl, numbered_fresh s⟩
    rw [h] at hmatch
    generalize nestedGraph r depth d { s with ids := {} } = x at hmatch
    cases hmatch
    exact ⟨_, _, rfl, hdistinct.numbering, rfl⟩
  obtain ⟨k, u, hk, hf, rfl⟩ := hnumbered hs h
  obtain ⟨k', u', hk', hf', rfl⟩ := hnumbered ht h'
  have hlike : Like r { s with ids := {} } { t with ids := {} } := ⟨rfl, hview, hinside⟩
  obtain ⟨rfl, -⟩ := Agrees.nestedGraph depth depth' d hlike hk hk'
  exact ⟨k, _, _, hf, hf', rfl, rfl⟩

/-! ## Implementations of built nodes -/

/-- An implementation by a graph, if it is one, was built from the node graph that the document gives for a definition,
inside of a compound and with some texts of source files. -/
def Stems (r : Request) (texts : String → Except Error String) (how : Implementation) : Prop :=
  ∀ name function g, how = .compound name function g → ∃ d inner depth s s', r.document.graphFor? d = some inner ∧
    how = .compound inner.name (r.generator.dialect.validName [] inner.name) g ∧
    nestedGraph r depth inner s = .ok g s' ∧ s.stack.isEmpty = false ∧ Injective s.ids.pick ∧
    view r.searchPath r.files s.cache = texts

/-- The nodes of a graph under construction have identities of their own, and the graphs of compounds stem from the
document. -/
structure Sound (r : Request) (texts : String → Except Error String) (s : BuildState) (g : Graph) : Prop where
  pick : Injective s.ids.pick
  view : view r.searchPath r.files s.cache = texts
  owned : g.Owned s.ids
  stems : ∀ n ∈ g.nodes, Stems r texts n.implementation

variable {texts : String → Except Error String} {depth : Nat} {g g' : Graph}

theorem Sound.of_cores (hg : Sound r texts s g) (hcores : g'.cores = g.cores) : Sound r texts s g' := by
  refine ⟨hg.pick, hg.view, hg.owned.of_ids (Graph.ids_of_cores hcores), fun n hn => ?_⟩
  obtain ⟨m, hm, hcore⟩ := Graph.exists_core (fun _ hcore => hcores ▸ hcore) hn
  have himplementation : m.implementation = n.implementation := congrArg (fun core => core.2.2) hcore
  exact himplementation ▸ hg.stems m hm

theorem keeps_node {scope : String} {n : NodeInstance} {m : Node}
    (h : node r (compound r (nestedGraph r depth)) scope n s = .ok m s') : Keeps r s s' := by
  obtain ⟨-, -, hkeeps, -⟩ := Agrees.node (Agrees.compound (Agrees.nestedGraph depth depth)) scope n ⟨rfl, rfl, rfl⟩ h h
  exact hkeeps

theorem stems_of_node {scope : String} {n : NodeInstance} {m : Node} (hpick : Injective s.ids.pick)
    (htexts : view r.searchPath r.files s.cache = texts)
    (h : node r (compound r (nestedGraph r depth)) scope n s = .ok m s') : Stems r texts m.implementation := by
  obtain ⟨d, _, how, _, _, t, -, -, hhow, -, -, rfl, -⟩ := node_cases h
  intro name function g hcompound
  obtain rfl : how = .compound name function g := hcompound
  rcases implementation_cases hhow with ⟨p, -, heq, -⟩ | ⟨-, ⟨code, -, heq, -⟩ | ⟨-, hentered⟩⟩
  · cases heq
  · cases heq
  · obtain ⟨inner, g', t', hinner, -, hbuild, heq, -⟩ := compound_cases hentered
    obtain ⟨rfl, rfl, rfl⟩ := Implementation.compound.inj heq
    exact ⟨d.name, inner, depth, _, t', hinner, rfl, hbuild, rfl, hpick, htexts⟩

theorem sound_of_wire {d : NodeGraph} (hpick : Injective s.ids.pick)
    (h : wire r (compound r (nestedGraph r depth)) d s = .ok g s') :
    Sound r (view r.searchPath r.files s.cache) s' g ∧ g.nodedef = d.nodedef := by
  have hsupplies := supplies_compound (r := r) (supplies_nestedGraph (r := r) depth)
  obtain ⟨nodes, hnodes, hframe⟩ := frame_of_wire h
  have hmade := state_mapM_forall₂ (I := fun t => Injective t.ids.pick ∧
      view r.searchPath r.files t.cache = view r.searchPath r.files s.cache) d.nodes
    (fun n _ t m t' ht hnode => ⟨(supplies_node hsupplies d.name n t m t' ht.1 hnode).injective ht.1,
      (keeps_node hnode).view.trans ht.2⟩) ⟨hpick, rfl⟩ hnodes
  obtain ⟨-, -, hkeeps, -⟩ := Agrees.wire (Agrees.compound (Agrees.nestedGraph depth depth)) d ⟨rfl, rfl, rfl⟩ h h
  refine ⟨⟨(supplies_wire hsupplies d s g s' hpick h).injective hpick, hkeeps.view,
    (nodes_of_wire hsupplies hpick h).1, fun n hn => ?_⟩, ?_⟩
  · obtain ⟨m, hm, heq⟩ := List.mem_map.mp (hframe ▸ List.mem_map_of_mem hn : n.frame ∈ nodes.map Node.frame)
    obtain ⟨_, -, t, t', ht, hnode⟩ := exists_of_forall₂ hmade hm
    have himplementation : m.implementation = n.implementation :=
      congrArg (fun core => core.2.2) (Graph.core_of_frame heq)
    exact himplementation ▸ stems_of_node ht.1 ht.2 hnode
  · obtain ⟨_, _, _, -, -, -, hkeeps⟩ := wire_keeps h
    refine hkeeps (fun g => g.nodedef = d.nodedef) rfl fun g g' _ _ _ hg _ hconnect => ?_
    exact (congrArg Graph.nodedef (frame_connectThrough hconnect)).trans hg

theorem sound_of_finish {publish : Bool} (hflatten : r.options.flatten = false) (hg : Sound r texts s g)
    (h : finish r publish g s = .ok g' s') : g'.InPlace ∧ Sound r texts s' g' ∧ g'.nodedef = g.nodedef := by
  obtain ⟨g₂, hsort, rfl, rfl⟩ := finish_unflattened hflatten h
  obtain ⟨hperm, hrest, hscheduled, -⟩ := Graph.isSortOf_of_sort hg.owned.distinct hsort
  have howned : g₂.Owned s'.ids :=
    ⟨hg.owned.distinct.perm hperm, fun id hid => hg.owned.issued id ((Graph.mem_ids_perm hperm).mp hid)⟩
  have hsorted : Sound r texts s' g₂ :=
    ⟨hg.pick, hg.view, howned, fun n hn => hg.stems n (hperm.mem_iff.mp hn)⟩
  obtain ⟨hcores, hplaced⟩ := hsorted.owned.distinct.inPlace hscheduled r.generator.language publish
  refine ⟨hplaced.withTraits _, hsorted.of_cores hcores, ?_⟩
  obtain ⟨σ, hscopes, -⟩ := Graph.assignScopes_scoped hsorted.owned.distinct hscheduled
  change (g₂.assignScopes.assignVariables r.generator.language publish).nodedef = g.nodedef
  rw [hscopes, hrest]
  rfl

theorem sound_of_nestedGraph (hflatten : r.options.flatten = false) {d : NodeGraph} (hpick : Injective s.ids.pick)
    (h : nestedGraph r depth d s = .ok g s') :
    g.InPlace ∧ Sound r (view r.searchPath r.files s.cache) s' g ∧ g.nodedef = d.nodedef := by
  cases depth with
  | zero => exact absurd h state_throw_ne_ok
  | succ depth =>
    obtain ⟨w, t, hwire, hfinish⟩ := assemble_cases h
    obtain ⟨hw, hnodedef⟩ := sound_of_wire hpick hwire
    obtain ⟨hplaced, hg, heq⟩ := sound_of_finish hflatten hw hfinish
    exact ⟨hplaced, hg, heq.trans hnodedef⟩

theorem sound_addNode {n : NodeInstance} {m : Node} (hg : Sound r texts s g)
    (h : node r (compound r (nodeGraph r)) "" n s = .ok m s') : Sound r texts s' (g.addNode m) := by
  obtain ⟨ids, hlater, hid, hids⟩ := id_of_node (supplies_compound supplies_nodeGraph) hg.pick h
  have hpick : Injective ids.pick := hlater.injective hg.pick
  refine ⟨?_, (keeps_node h).view.trans hg.view, ?_, fun k hk => ?_⟩
  · rw [hids]
    exact (IdSupply.later_fresh ids).injective hpick
  · rw [hids]
    exact (hg.owned.later hlater).addNode hpick hid
  · rcases List.mem_append.mp hk with hk | hk
    · exact hg.stems k hk
    · exact List.mem_singleton.mp hk ▸ stems_of_node hg.pick hg.view h

/-- The graph of an element: its nodes have their places, and the graphs of its compounds stem from the document. -/
theorem sound_of_build (hflatten : r.options.flatten = false) {element : Shader.Element} (hpick : Injective s.ids.pick)
    (h : element.build r s = .ok g s') : g.InPlace ∧ Sound r (view r.searchPath r.files s.cache) s' g := by
  cases element with
  | graph d =>
    obtain ⟨hplaced, hg, -⟩ := sound_of_nestedGraph hflatten hpick h
    exact ⟨hplaced, hg⟩
  | node n =>
    obtain ⟨w, t, hw, hfinish⟩ := singleNode_keeps_cores (P := Sound r (view r.searchPath r.files s.cache))
      (fun _ _ _ _ _ => sound_addNode) Sound.of_cores
      ⟨hpick, rfl, (Graph.Built.empty _ n.name).toOwned, fun _ hn => absurd hn List.not_mem_nil⟩ h
    obtain ⟨hplaced, hg, -⟩ := sound_of_finish hflatten hw hfinish
    exact ⟨hplaced, hg⟩

end ShadeGraph.Build

import Mathlib.Logic.Relation
import ShadeGraph.Proofs.Graph.Schedule
import ShadeGraph.Proofs.Graph.Update

/-!
# Connections are recorded at both ends

A connection is kept twice: the input names its source, and the output lists its readers. `Paired` says that the two
records agree and name existing pins, and `Linked` that, moreover, a connected input has no literal value and the types
of its two ends fit. Every operation on a graph keeps both, so they hold behind every sequence of operations that starts
from the empty graph.

For each operation one lemma says what is looked up behind it in a linked graph; the invariant follows from that.
-/

namespace ShadeGraph

def Node.Unconnected (n : Node) : Prop := (∀ i ∈ n.inputs, i.source = none) ∧ ∀ o ∈ n.outputs, o.readers = []

namespace Graph

/-- The records of connections at inputs and at outputs agree. -/
structure Paired (g : Graph) : Prop where
  distinct : g.Distinct
  /-- What an input reads exists. -/
  source_known : ∀ {target i source}, g.input? target = some i → i.source = some source →
    ∃ o, g.output? source = some o
  /-- What an output lists as a reader exists. -/
  reader_known : ∀ {source o target}, g.output? source = some o → target ∈ o.readers → ∃ i, g.input? target = some i
  agree : ∀ {source target o i}, g.output? source = some o → g.input? target = some i →
    (i.source = some source ↔ target ∈ o.readers)
  once : ∀ {source o}, g.output? source = some o → o.readers.Nodup

/-- What an output lists as a reader reads it, and is listed once. -/
structure Listed (g : Graph) : Prop where
  reads : ∀ {source o target}, g.output? source = some o → target ∈ o.readers →
    ∃ i, g.input? target = some i ∧ i.source = some source
  once : ∀ {source o}, g.output? source = some o → o.readers.Nodup

/-- The records of connections agree, and every connection fits. -/
structure Linked (g : Graph) : Prop extends g.Paired where
  bare : ∀ {target i}, g.input? target = some i → i.source.isSome → i.value = none
  fits : ∀ {target i source o}, g.input? target = some i → i.source = some source → g.output? source = some o →
    compatible o.type i.channels i.type

variable {g h : Graph} {id : NodeId} {source target : PinRef}

theorem Paired.listed (hg : g.Paired) : g.Listed := by
  refine ⟨fun ho ht => ?_, hg.once⟩
  obtain ⟨i, hi⟩ := hg.reader_known ho ht
  exact ⟨i, hi, (hg.agree ho hi).mpr ht⟩

theorem Linked.congr (hg : g.Linked) (hdistinct : h.Distinct) (hinput : ∀ p, h.input? p = g.input? p)
    (houtput : ∀ p, h.output? p = g.output? p) : h.Linked := by
  refine ⟨⟨hdistinct, ?_, ?_, ?_, ?_⟩, ?_, ?_⟩ <;> simp only [hinput, houtput]
  · exact hg.source_known
  · exact hg.reader_known
  · exact hg.agree
  · exact hg.once
  · exact hg.bare
  · exact hg.fits

theorem Paired.source_of_node (hg : g.Paired) {n : Node} {i : Input} (hn : n ∈ g.nodes) (hi : i ∈ n.inputs)
    (hs : i.source = some source) : ∃ o, g.output? source = some o := by
  obtain ⟨index, hindex⟩ := List.mem_iff_getElem?.mp hi
  have hinput : g.input? (.ofNode n.id index) = some i := by
    simp [input?, PinRef.ofNode, hg.distinct.node?_of_mem hn, hindex]
  exact hg.source_known hinput hs

theorem Paired.source_of_socket (hg : g.Paired) {i : Input} (hi : i ∈ g.outputSockets) (hs : i.source = some source) :
    ∃ o, g.output? source = some o := by
  obtain ⟨index, hindex⟩ := List.mem_iff_getElem?.mp hi
  have hinput : g.input? (.socket index) = some i := hindex
  exact hg.source_known hinput hs

theorem Linked.empty (name : String) : (Graph.empty name).Linked := by
  have hinput : ∀ p, (Graph.empty name).input? p = none := by
    rintro ⟨owner, index⟩
    cases owner <;> rfl
  have houtput : ∀ p, (Graph.empty name).output? p = none := by
    rintro ⟨owner, index⟩
    cases owner <;> rfl
  refine ⟨⟨List.nodup_nil, ?_, ?_, ?_, ?_⟩, ?_, ?_⟩ <;> simp [hinput, houtput]

/-! ## New nodes and sockets -/

/-- A graph with all pins of another one and further pins that are not connected. -/
structure Extends (h g : Graph) : Prop where
  distinct : h.Distinct
  input_kept : ∀ {p i}, g.input? p = some i → h.input? p = some i
  output_kept : ∀ {p o}, g.output? p = some o → h.output? p = some o
  input_new : ∀ {p i}, h.input? p = some i → g.input? p = some i ∨ g.input? p = none ∧ i.source = none
  output_new : ∀ {p o}, h.output? p = some o → g.output? p = some o ∨ g.output? p = none ∧ o.readers = []

theorem Extends.input_of_source (hext : h.Extends g) {i : Input} (hi : h.input? target = some i)
    (hs : i.source = some source) : g.input? target = some i := by
  rcases hext.input_new hi with hi | ⟨-, hfree⟩
  · exact hi
  · rw [hfree] at hs
    cases hs

theorem Paired.extend (hg : g.Paired) (hext : h.Extends g) : h.Paired := by
  have hreader : ∀ {source o target}, h.output? source = some o → target ∈ o.readers →
      g.output? source = some o := by
    intro source o target ho ht
    rcases hext.output_new ho with ho | ⟨-, hnone⟩
    · exact ho
    · rw [hnone] at ht
      cases ht
  refine ⟨hext.distinct, ?_, ?_, ?_, ?_⟩
  · intro target i source hi hs
    obtain ⟨o, ho⟩ := hg.source_known (hext.input_of_source hi hs) hs
    exact ⟨o, hext.output_kept ho⟩
  · intro source o target ho ht
    obtain ⟨i, hi⟩ := hg.reader_known (hreader ho ht) ht
    exact ⟨i, hext.input_kept hi⟩
  · intro source target o i ho hi
    constructor
    · intro hs
      have hi' := hext.input_of_source hi hs
      obtain ⟨o', ho'⟩ := hg.source_known hi' hs
      obtain rfl : o' = o := Option.some.inj ((hext.output_kept ho').symm.trans ho)
      exact (hg.agree ho' hi').mp hs
    · intro ht
      have ho' := hreader ho ht
      obtain ⟨i', hi'⟩ := hg.reader_known ho' ht
      obtain rfl : i' = i := Option.some.inj ((hext.input_kept hi').symm.trans hi)
      exact (hg.agree ho' hi').mpr ht
  · intro source o ho
    rcases hext.output_new ho with ho | ⟨-, hnone⟩
    · exact hg.once ho
    · rw [hnone]
      exact List.nodup_nil

theorem Linked.extend (hg : g.Linked) (hext : h.Extends g) : h.Linked := by
  refine ⟨hg.toPaired.extend hext, ?_, ?_⟩
  · intro target i hi hs
    obtain ⟨source, hsome⟩ := Option.isSome_iff_exists.mp hs
    exact hg.bare (hext.input_of_source hi hsome) hs
  · intro target i source o hi hs ho
    have hi' := hext.input_of_source hi hs
    obtain ⟨o', ho'⟩ := hg.source_known hi' hs
    obtain rfl : o' = o := Option.some.inj ((hext.output_kept ho').symm.trans ho)
    exact hg.fits hi' hs ho'

theorem Extends.refl (hg : g.Distinct) : g.Extends g :=
  ⟨hg, fun hi => hi, fun ho => ho, .inl, .inl⟩

theorem Extends.trans {k : Graph} (h₁ : h.Extends g) (h₂ : k.Extends h) : k.Extends g := by
  refine ⟨h₂.distinct, fun hi => h₂.input_kept (h₁.input_kept hi), fun ho => h₂.output_kept (h₁.output_kept ho), ?_, ?_⟩
  · intro p i hi
    rcases h₂.input_new hi with hi | ⟨hnone, hfree⟩
    · exact h₁.input_new hi
    · refine .inr ⟨Option.eq_none_iff_forall_ne_some.mpr fun j hj => ?_, hfree⟩
      rw [h₁.input_kept hj] at hnone
      cases hnone
  · intro p o ho
    rcases h₂.output_new ho with ho | ⟨hnone, hfree⟩
    · exact h₁.output_new ho
    · refine .inr ⟨Option.eq_none_iff_forall_ne_some.mpr fun r hr => ?_, hfree⟩
      rw [h₁.output_kept hr] at hnone
      cases hnone

theorem extends_addNode (hg : g.Distinct) {n : Node} (hnew : n.id ∉ g.ids) (hn : n.Unconnected) :
    (g.addNode n).Extends g := by
  have hother : ∀ {x : NodeId} {m : Node}, g.node? x = some m → (g.addNode n).node? x = some m := by
    intro x m hm
    have hx : x ≠ n.id := fun hx => hnew (hx ▸ mem_ids_of_node? hm)
    rw [node?_addNode hnew, if_neg hx, hm]
  refine ⟨?_, ?_, ?_, ?_, ?_⟩
  · rw [Distinct, ids_addNode, ← List.concat_eq_append]
    exact List.Nodup.concat hnew hg
  · rintro ⟨owner, index⟩ i hi
    cases owner with
    | graph => exact hi
    | node x =>
      obtain ⟨m, hm, hi⟩ := Option.bind_eq_some_iff.mp hi
      exact Option.bind_eq_some_iff.mpr ⟨m, hother hm, hi⟩
  · rintro ⟨owner, index⟩ o ho
    cases owner with
    | graph => exact ho
    | node x =>
      obtain ⟨m, hm, ho⟩ := Option.bind_eq_some_iff.mp ho
      exact Option.bind_eq_some_iff.mpr ⟨m, hother hm, ho⟩
  · rintro ⟨owner, index⟩ i hi
    cases owner with
    | graph => exact .inl hi
    | node x =>
      simp only [input?] at hi ⊢
      rw [node?_addNode hnew] at hi
      split at hi
      · rename_i hx
        subst hx
        rw [node?_eq_none_iff.mpr hnew]
        exact .inr ⟨rfl, hn.1 i (List.mem_of_getElem? hi)⟩
      · exact .inl hi
  · rintro ⟨owner, index⟩ o ho
    cases owner with
    | graph => exact .inl ho
    | node x =>
      simp only [output?] at ho ⊢
      rw [node?_addNode hnew] at ho
      split at ho
      · rename_i hx
        subst hx
        rw [node?_eq_none_iff.mpr hnew]
        exact .inr ⟨rfl, hn.2 o (List.mem_of_getElem? ho)⟩
      · exact .inl ho

def addNodes (g : Graph) (nodes : List Node) : Graph := { g with nodes := g.nodes ++ nodes }

theorem addNodes_nil (g : Graph) : g.addNodes [] = g := by
  cases g
  simp [addNodes]

theorem addNodes_cons (g : Graph) (n : Node) (nodes : List Node) :
    g.addNodes (n :: nodes) = (g.addNode n).addNodes nodes := by
  simp [addNodes, addNode]

theorem extends_addNodes (nodes : List Node) : ∀ {g : Graph}, g.Distinct → (nodes.map Node.id).Nodup →
    (∀ n ∈ nodes, n.id ∉ g.ids ∧ n.Unconnected) → (g.addNodes nodes).Extends g := by
  induction nodes with
  | nil =>
    intro g hg _ _
    rw [addNodes_nil]
    exact .refl hg
  | cons n nodes ih =>
    intro g hg hnodup hnew
    rw [List.map_cons, List.nodup_cons] at hnodup
    have hfirst := extends_addNode hg (hnew n List.mem_cons_self).1 (hnew n List.mem_cons_self).2
    rw [addNodes_cons]
    refine hfirst.trans (ih hfirst.distinct hnodup.2 fun m hm => ⟨?_, (hnew m (List.mem_cons_of_mem n hm)).2⟩)
    rw [ids_addNode, List.mem_append, List.mem_singleton, not_or]
    refine ⟨(hnew m (List.mem_cons_of_mem n hm)).1, fun hid => hnodup.1 (hid ▸ List.mem_map_of_mem hm)⟩

theorem getElem?_concat_cases {α : Type} {l : List α} {a x : α} {k : Nat} (h : (l ++ [a])[k]? = some x) :
    l[k]? = some x ∨ l[k]? = none ∧ x = a := by
  rw [List.getElem?_append] at h
  split at h
  · exact .inl h
  · rename_i hk
    have hx : x = a := by simpa using List.mem_of_getElem? h
    exact .inr ⟨List.getElem?_eq_none (by omega), hx⟩

theorem extends_addInputSocket (hg : g.Distinct) {s : Output} (hs : s.readers = []) :
    (g.addInputSocket s).Extends g := by
  refine ⟨hg, ?_, ?_, ?_, ?_⟩
  · rintro ⟨owner, index⟩ i hi
    cases owner <;> exact hi
  · rintro ⟨owner, index⟩ o ho
    cases owner with
    | graph => exact (List.getElem?_append_left (List.getElem?_eq_some_iff.mp ho).1).trans ho
    | node x => exact ho
  · rintro ⟨owner, index⟩ i hi
    cases owner <;> exact .inl hi
  · rintro ⟨owner, index⟩ o ho
    cases owner with
    | node x => exact .inl ho
    | graph =>
      rcases getElem?_concat_cases ho with ho | ⟨hnone, rfl⟩
      · exact .inl ho
      · exact .inr ⟨hnone, hs⟩

theorem extends_addOutputSocket (hg : g.Distinct) {s : Input} (hs : s.source = none) :
    (g.addOutputSocket s).Extends g := by
  refine ⟨hg, ?_, ?_, ?_, ?_⟩
  · rintro ⟨owner, index⟩ i hi
    cases owner with
    | graph => exact (List.getElem?_append_left (List.getElem?_eq_some_iff.mp hi).1).trans hi
    | node x => exact hi
  · rintro ⟨owner, index⟩ o ho
    cases owner <;> exact ho
  · rintro ⟨owner, index⟩ i hi
    cases owner with
    | node x => exact .inl hi
    | graph =>
      rcases getElem?_concat_cases hi with hi | ⟨hnone, rfl⟩
      · exact .inl hi
      · exact .inr ⟨hnone, hs⟩
  · rintro ⟨owner, index⟩ o ho
    cases owner <;> exact .inl ho

/-! ## Connecting and disconnecting -/

theorem ids_disconnect (g : Graph) (target : PinRef) : (g.disconnect target).ids = g.ids := by
  rw [disconnect]
  split
  · rfl
  · rw [ids_forget, ids_modifyInput]

theorem input?_disconnect (g : Graph) (target q : PinRef) :
    (g.disconnect target).input? q = (g.input? q).map fun i => if q = target then { i with source := none } else i := by
  rw [disconnect]
  split
  · rename_i hnone
    cases hi : g.input? q with
    | none => rfl
    | some i =>
      rw [Option.map_some]
      split
      · rename_i hq
        have hfree : i.source = none := by simpa [← hq, hi] using hnone
        rw [← hfree]
      · rfl
  · rw [input?_forget, input?_modifyInput]

/-- In a paired graph only the source of an input lists it, so disconnecting takes it from every list. -/
theorem Paired.output?_disconnect (hg : g.Paired) (target q : PinRef) :
    (g.disconnect target).output? q =
      (g.output? q).map fun o => { o with readers := o.readers.filter fun r => r != target } := by
  have hunread : ∀ o, g.output? q = some o → (g.input? target).bind Input.source ≠ some q →
      (o.readers.filter fun r => r != target) = o.readers := by
    intro o ho hother
    rw [List.filter_eq_self]
    intro r hr
    rw [bne_iff_ne]
    rintro rfl
    obtain ⟨i, hi⟩ := hg.reader_known ho hr
    exact hother (by rw [hi]; exact (hg.agree ho hi).mpr hr)
  rw [disconnect]
  split
  · rename_i hnone
    cases ho : g.output? q with
    | none => rfl
    | some o =>
      rw [Option.map_some, hunread o ho (by simp [hnone])]
  · rename_i source hsource
    rw [output?_forget, output?_modifyInput]
    cases ho : g.output? q with
    | none => rfl
    | some o =>
      rw [Option.map_some, Option.map_some]
      split
      · rfl
      · rename_i hq
        rw [hunread o ho (by rw [hsource]; exact fun h => hq (Option.some.inj h).symm)]

theorem Paired.disconnect (hg : g.Paired) (target : PinRef) : (g.disconnect target).Paired := by
  have hinput : ∀ {q i}, (g.disconnect target).input? q = some i →
      ∃ i', g.input? q = some i' ∧ (if q = target then { i' with source := none } else i') = i := by
    intro q i hi
    rwa [input?_disconnect, Option.map_eq_some_iff] at hi
  have houtput : ∀ {q o}, (g.disconnect target).output? q = some o →
      ∃ o', g.output? q = some o' ∧ { o' with readers := o'.readers.filter fun r => r != target } = o := by
    intro q o ho
    rwa [hg.output?_disconnect, Option.map_eq_some_iff] at ho
  refine ⟨?_, ?_, ?_, ?_, ?_⟩
  · rw [Distinct, ids_disconnect]
    exact hg.distinct
  · intro q i source hi hs
    obtain ⟨i', hi', rfl⟩ := hinput hi
    split at hs
    · cases hs
    · obtain ⟨o, ho⟩ := hg.source_known hi' hs
      exact ⟨_, by rw [hg.output?_disconnect, ho]; rfl⟩
  · intro source o q ho hq
    obtain ⟨o', ho', rfl⟩ := houtput ho
    obtain ⟨i, hi⟩ := hg.reader_known ho' (List.mem_filter.mp hq).1
    exact ⟨_, by rw [input?_disconnect, hi]; rfl⟩
  · intro source q o i ho hi
    obtain ⟨o', ho', rfl⟩ := houtput ho
    obtain ⟨i', hi', rfl⟩ := hinput hi
    by_cases hq : q = target
    · simp [hq]
    · simp [hq, hg.agree ho' hi']
  · intro source o ho
    obtain ⟨o', ho', rfl⟩ := houtput ho
    exact (hg.once ho').filter _

theorem Linked.of_connected (hg : g.Linked) (hh : h.Paired)
    (hinput : ∀ {q i}, h.input? q = some i → i.source.isSome → g.input? q = some i)
    (houtput : ∀ {q o}, h.output? q = some o → ∃ p, g.output? q = some p ∧ p.type = o.type) : h.Linked := by
  refine ⟨hh, fun {q i} hi hs => hg.bare (hinput hi hs) hs, fun {q i source o} hi hs ho => ?_⟩
  obtain ⟨p, hp, htype⟩ := houtput ho
  have hi' := hinput hi (by rw [hs]; rfl)
  exact htype ▸ hg.fits hi' hs hp

theorem Linked.disconnect (hg : g.Linked) (target : PinRef) : (g.disconnect target).Linked := by
  refine hg.of_connected (hg.toPaired.disconnect target) (fun {q i} hi hs => ?_) fun {q o} ho => ?_
  · rw [input?_disconnect, Option.map_eq_some_iff] at hi
    obtain ⟨i', hi', rfl⟩ := hi
    split at hs
    · cases hs
    · rename_i hq
      rwa [if_neg hq]
  · rw [hg.output?_disconnect, Option.map_eq_some_iff] at ho
    obtain ⟨o', ho', rfl⟩ := ho
    exact ⟨o', ho', rfl⟩

theorem Paired.link (hg : g.Paired) {i : Input} {o : Output} (hi : g.input? target = some i) (hfree : i.source = none)
    (ho : g.output? source = some o) : (g.link source target).Paired := by
  -- the target reads nothing yet, so no output lists it a second time
  have hunread : ∀ {q o}, g.output? q = some o → target ∉ o.readers := by
    intro q o ho hmem
    rw [← hg.agree ho hi, hfree] at hmem
    cases hmem
  have hinput : ∀ {q j}, (g.link source target).input? q = some j → ∃ j', g.input? q = some j' ∧
      (if q = target then { j' with source := some source, value := none } else j') = j := by
    intro q j hj
    rwa [input?_link, Option.map_eq_some_iff] at hj
  have houtput : ∀ {q p}, (g.link source target).output? q = some p → ∃ p', g.output? q = some p' ∧
      (if q = source then { p' with readers := p'.readers ++ [target] } else p') = p := by
    intro q p hp
    rw [output?_link, Option.map_eq_some_iff] at hp
    obtain ⟨p', hp', rfl⟩ := hp
    exact ⟨p', hp', by simp [hunread hp']⟩
  refine ⟨?_, ?_, ?_, ?_, ?_⟩
  · rw [Distinct, ids_link]
    exact hg.distinct
  · intro q j s hj hs
    obtain ⟨j', hj', rfl⟩ := hinput hj
    have hknown : ∃ p, g.output? s = some p := by
      split at hs
      · exact ⟨o, by rwa [← Option.some.inj hs]⟩
      · exact hg.source_known hj' hs
    obtain ⟨p, hp⟩ := hknown
    exact ⟨_, by rw [output?_link, hp]; rfl⟩
  · intro s p q hp hq
    obtain ⟨p', hp', rfl⟩ := houtput hp
    have hknown : ∃ j, g.input? q = some j := by
      split at hq
      · rcases List.mem_append.mp hq with hq | hq
        · exact hg.reader_known hp' hq
        · exact ⟨i, by rwa [List.mem_singleton.mp hq]⟩
      · exact hg.reader_known hp' hq
    obtain ⟨j, hj⟩ := hknown
    exact ⟨_, by rw [input?_link, hj]; rfl⟩
  · intro s q p j hp hj
    obtain ⟨p', hp', rfl⟩ := houtput hp
    obtain ⟨j', hj', rfl⟩ := hinput hj
    have hagree := hg.agree hp' hj'
    by_cases hq : q = target
    · subst hq
      have hnot := hunread hp'
      by_cases hs : s = source
      · simp [hs]
      · simp [hs, Ne.symm hs, hnot]
    · by_cases hs : s = source
      · subst hs
        simp [hq, hagree]
      · simp [hq, hs, hagree]
  · intro s p hp
    obtain ⟨p', hp', rfl⟩ := houtput hp
    split
    · rw [← List.concat_eq_append]
      exact (hg.once hp').concat (hunread hp')
    · exact hg.once hp'

theorem type_of_output?_link {p : Output} {s : PinRef} (hp : (g.link source target).output? s = some p) :
    ∃ p', g.output? s = some p' ∧ p.type = p'.type := by
  rw [output?_link, Option.map_eq_some_iff] at hp
  obtain ⟨p', hp', rfl⟩ := hp
  refine ⟨p', hp', ?_⟩
  split
  · split <;> rfl
  · rfl

theorem Linked.link (hg : g.Linked) {i : Input} {o : Output} (hi : g.input? target = some i) (hfree : i.source = none)
    (ho : g.output? source = some o) (hfit : compatible o.type i.channels i.type) : (g.link source target).Linked := by
  refine ⟨hg.toPaired.link hi hfree ho, ?_, ?_⟩
  · intro q j hj hs
    rw [input?_link, Option.map_eq_some_iff] at hj
    obtain ⟨j', hj', rfl⟩ := hj
    split at hs
    · rename_i hq
      rw [if_pos hq]
    · rename_i hq
      rw [if_neg hq]
      exact hg.bare hj' hs
  · intro q j s p hj hs hp
    obtain ⟨p', hp', htype⟩ := type_of_output?_link hp
    rw [input?_link, Option.map_eq_some_iff] at hj
    obtain ⟨j', hj', rfl⟩ := hj
    rw [htype]
    split at hs
    · rename_i hq
      subst hq
      obtain rfl : i = j' := Option.some.inj (hi.symm.trans hj')
      obtain rfl : source = s := Option.some.inj hs
      obtain rfl : o = p' := Option.some.inj (ho.symm.trans hp')
      rw [if_pos rfl]
      exact hfit
    · rename_i hq
      rw [if_neg hq]
      exact hg.fits hj' hs hp'

theorem connect_cases (hc : g.connect source target = .ok h) : ∃ o i, g.output? source = some o ∧
    g.input? target = some i ∧ compatible o.type i.channels i.type ∧ h = (g.disconnect target).link source target := by
  rw [Graph.connect, Edit.result, Edit.connect_eq] at hc
  cases ho : g.output? source with
  | none => simp [ho] at hc
  | some o =>
    cases hi : g.input? target with
    | none => simp [ho, hi] at hc
    | some i =>
      by_cases hfit : compatible o.type i.channels i.type = true
      · simp only [ho, hi, if_pos hfit, Except.ok.injEq] at hc
        exact ⟨o, i, rfl, rfl, hfit, hc.symm⟩
      · simp [ho, hi, hfit] at hc

theorem input?_disconnect_self {i : Input} (hi : g.input? target = some i) :
    (g.disconnect target).input? target = some { i with source := none } := by
  rw [input?_disconnect, hi]
  simp

theorem Linked.connect (hg : g.Linked) (hc : g.connect source target = .ok h) : h.Linked := by
  obtain ⟨o, i, ho, hi, hfit, rfl⟩ := connect_cases hc
  have ho' := hg.output?_disconnect target source
  rw [ho] at ho'
  exact (hg.disconnect target).link (input?_disconnect_self hi) rfl ho' hfit

/-! ## Removing a node -/

/-- Takes a node out of the list of nodes, without regard to its connections. -/
def dropNode (g : Graph) (id : NodeId) : Graph := { g with nodes := g.nodes.filter fun m => m.id != id }

/-- Takes back the sources of inputs. -/
def release (g : Graph) (targets : List PinRef) : Graph :=
  targets.foldl (fun g target => g.modifyInput target fun i => { i with source := none }) g

theorem removeNode_of_unknown (hn : g.node? id = none) : g.removeNode id = g := by rw [removeNode, hn]

theorem removeNode_eq {n : Node} (hn : g.node? id = some n) :
    g.removeNode id = (forgetInputs id (g.dropNode id) 0 n.inputs).release (n.outputs.flatMap Output.readers) := by
  rw [removeNode, hn]
  rfl

theorem dropNode_of_unknown (hn : g.node? id = none) : g.dropNode id = g := by
  have hall : ∀ m ∈ g.nodes, (m.id != id) = true := by
    intro m hm
    simpa using List.find?_eq_none.mp hn m hm
  rw [dropNode, List.filter_eq_self.mpr hall]
  cases g
  rfl

theorem ids_dropNode (g : Graph) (id : NodeId) : (g.dropNode id).ids = g.ids.filter fun x => x != id := by
  rw [ids, ids, dropNode, List.filter_map]
  rfl

theorem node?_dropNode (g : Graph) (id x : NodeId) :
    (g.dropNode id).node? x = if x = id then none else g.node? x := by
  rw [node?, dropNode, List.find?_filter]
  split
  · rename_i hx
    rw [List.find?_eq_none]
    simp [hx]
  · rename_i hx
    rw [node?]
    congr 1
    funext m
    by_cases hm : m.id = x <;> simp [hm, hx]

theorem input?_dropNode (g : Graph) (id : NodeId) (q : PinRef) :
    (g.dropNode id).input? q = if q.owner = .node id then none else g.input? q := by
  obtain ⟨owner, index⟩ := q
  cases owner with
  | graph => rfl
  | node x =>
    simp only [input?, node?_dropNode]
    by_cases hx : x = id <;> simp [hx]

theorem output?_dropNode (g : Graph) (id : NodeId) (q : PinRef) :
    (g.dropNode id).output? q = if q.owner = .node id then none else g.output? q := by
  obtain ⟨owner, index⟩ := q
  cases owner with
  | graph => rfl
  | node x =>
    simp only [output?, node?_dropNode]
    by_cases hx : x = id <;> simp [hx]

theorem ids_forgetInputs (id : NodeId) (inputs : List Input) :
    ∀ (g : Graph) (k : Nat), (forgetInputs id g k inputs).ids = g.ids := by
  induction inputs with
  | nil => intro g k; rfl
  | cons i inputs ih =>
    intro g k
    rw [forgetInputs, ih]
    split
    · exact ids_forget _ _ _
    · rfl

theorem input?_forgetInputs (id : NodeId) (inputs : List Input) (q : PinRef) :
    ∀ (g : Graph) (k : Nat), (forgetInputs id g k inputs).input? q = g.input? q := by
  induction inputs with
  | nil => intro g k; rfl
  | cons i inputs ih =>
    intro g k
    rw [forgetInputs, ih]
    split
    · exact input?_forget _ _ _ _
    · rfl

/-- Whether a pin is one of the inputs of a node, from a position on, and reads a source. -/
def readsAt (id : NodeId) (k : Nat) (inputs : List Input) (source target : PinRef) : Bool :=
  (inputs.zipIdx k).any fun (i, index) => i.source == some source && target == .ofNode id index

theorem output?_forgetInputs (id : NodeId) (inputs : List Input) (q : PinRef) :
    ∀ (g : Graph) (k : Nat), (forgetInputs id g k inputs).output? q =
      (g.output? q).map fun o => { o with readers := o.readers.filter fun r => !readsAt id k inputs q r } := by
  induction inputs with
  | nil =>
    intro g k
    simp [forgetInputs, readsAt]
  | cons i inputs ih =>
    intro g k
    have hsplit : ∀ r, readsAt id k (i :: inputs) q r =
        (i.source == some q && r == .ofNode id k || readsAt id (k + 1) inputs q r) := by
      intro r
      simp [readsAt]
    rw [forgetInputs, ih]
    cases hs : i.source with
    | none => simp [hsplit, hs]
    | some source =>
      simp only [output?_forget, Option.map_map]
      cases g.output? q with
      | none => rfl
      | some o =>
        simp only [Option.map_some, Function.comp_apply, hsplit, hs]
        by_cases hq : q = source
        · simp [hq, List.filter_filter, bne, Bool.and_comm]
        · have hne : (source == q) = false := by simpa using Ne.symm hq
          simp [hq, hne]

theorem ids_release (targets : List PinRef) : ∀ g : Graph, (g.release targets).ids = g.ids := by
  induction targets with
  | nil => intro g; rfl
  | cons target targets ih =>
    intro g
    exact (ih _).trans (ids_modifyInput _ _ _)

theorem output?_release (targets : List PinRef) (q : PinRef) :
    ∀ g : Graph, (g.release targets).output? q = g.output? q := by
  induction targets with
  | nil => intro g; rfl
  | cons target targets ih =>
    intro g
    exact (ih _).trans (output?_modifyInput _ _ _ _)

theorem input?_release (targets : List PinRef) (q : PinRef) : ∀ g : Graph, (g.release targets).input? q =
    (g.input? q).map fun i => if q ∈ targets then { i with source := none } else i := by
  induction targets with
  | nil => intro g; simp [release]
  | cons target targets ih =>
    intro g
    refine (ih _).trans ?_
    rw [input?_modifyInput, Option.map_map]
    cases g.input? q with
    | none => rfl
    | some i =>
      simp only [Option.map_some, Function.comp_apply, List.mem_cons]
      by_cases hq : q = target <;> by_cases hmem : q ∈ targets <;> simp [hq, hmem]

theorem readsAt_iff {n : Node} (hn : g.node? id = some n) :
    readsAt id 0 n.inputs source target ↔
      target.owner = .node id ∧ ∃ i, g.input? target = some i ∧ i.source = some source := by
  simp only [readsAt, List.any_eq_true, Bool.and_eq_true, beq_iff_eq, Prod.exists, List.mem_zipIdx_iff_getElem?]
  constructor
  · rintro ⟨i, index, hi, hs, rfl⟩
    exact ⟨rfl, i, by simp [PinRef.ofNode, input?, hn, hi], hs⟩
  · rintro ⟨howner, i, hi, hs⟩
    obtain ⟨owner, index⟩ := target
    obtain rfl : owner = .node id := howner
    exact ⟨i, index, by simpa [input?, hn] using hi, hs, rfl⟩

theorem Paired.mem_readers_iff (hg : g.Paired) {n : Node} (hn : g.node? id = some n) :
    target ∈ n.outputs.flatMap Output.readers ↔ ∃ i, g.input? target = some i ∧ i.sourceNode? = some id := by
  have houtput : ∀ {index o}, g.output? (.ofNode id index) = some o ↔ n.outputs[index]? = some o := by
    intro index o
    simp [PinRef.ofNode, output?, hn]
  rw [List.mem_flatMap]
  constructor
  · rintro ⟨o, ho, hmem⟩
    obtain ⟨index, hindex⟩ := List.getElem?_of_mem ho
    have ho' := houtput.mpr hindex
    obtain ⟨i, hi⟩ := hg.reader_known ho' hmem
    exact ⟨i, hi, by rw [Input.sourceNode?, (hg.agree ho' hi).mpr hmem]; rfl⟩
  · rintro ⟨i, hi, hs⟩
    obtain ⟨index, hsource⟩ := sourceNode?_eq_some.mp hs
    obtain ⟨o, ho⟩ := hg.source_known hi hsource
    exact ⟨o, List.mem_of_getElem? (houtput.mp ho), (hg.agree ho hi).mp hsource⟩

theorem ids_removeNode (g : Graph) (id : NodeId) : (g.removeNode id).ids = g.ids.filter fun x => x != id := by
  cases hn : g.node? id with
  | none =>
    have hall : ∀ x ∈ g.ids, (x != id) = true := by
      intro x hx
      rw [bne_iff_ne]
      rintro rfl
      exact node?_eq_none_iff.mp hn hx
    rw [removeNode_of_unknown hn, List.filter_eq_self.mpr hall]
  | some n => rw [removeNode_eq hn, ids_release, ids_forgetInputs, ids_dropNode]

/-- What is left of an input when a node is removed. -/
def cutFrom (id : NodeId) (i : Input) : Input := if i.sourceNode? = some id then { i with source := none } else i

theorem Paired.input?_removeNode (hg : g.Paired) (id : NodeId) (q : PinRef) :
    (g.removeNode id).input? q = if q.owner = .node id then none else (g.input? q).map (cutFrom id) := by
  cases hn : g.node? id with
  | none =>
    rw [removeNode_of_unknown hn]
    split
    · rename_i howner
      simp [input?, howner, hn]
    · cases hi : g.input? q with
      | none => rfl
      | some i =>
        have hother : i.sourceNode? ≠ some id := by
          intro hs
          obtain ⟨index, hsource⟩ := sourceNode?_eq_some.mp hs
          obtain ⟨o, ho⟩ := hg.source_known hi hsource
          simp [output?, PinRef.ofNode, hn] at ho
        rw [Option.map_some, cutFrom, if_neg hother]
  | some n =>
    rw [removeNode_eq hn, input?_release, input?_forgetInputs, input?_dropNode]
    by_cases howner : q.owner = .node id
    · rw [if_pos howner, if_pos howner]
      rfl
    · rw [if_neg howner, if_neg howner]
      cases hi : g.input? q with
      | none => rfl
      | some i =>
        rw [Option.map_some, Option.map_some, cutFrom]
        have hiff : q ∈ n.outputs.flatMap Output.readers ↔ i.sourceNode? = some id := by
          rw [hg.mem_readers_iff hn, hi]
          simp
        simp only [hiff]

theorem Paired.output?_removeNode (hg : g.Paired) (id : NodeId) (q : PinRef) :
    (g.removeNode id).output? q = if q.owner = .node id then none else (g.output? q).map fun o =>
      { o with readers := o.readers.filter fun r => r.owner != .node id } := by
  cases hn : g.node? id with
  | none =>
    rw [removeNode_of_unknown hn]
    split
    · rename_i howner
      simp [output?, howner, hn]
    · cases ho : g.output? q with
      | none => rfl
      | some o =>
        have hall : ∀ r ∈ o.readers, (r.owner != .node id) = true := by
          intro r hr
          rw [bne_iff_ne]
          intro howner
          obtain ⟨i, hi⟩ := hg.reader_known ho hr
          simp [input?, howner, hn] at hi
        rw [Option.map_some, List.filter_eq_self.mpr hall]
  | some n =>
    rw [removeNode_eq hn, output?_release, output?_forgetInputs, output?_dropNode]
    split
    · rfl
    · cases ho : g.output? q with
      | none => rfl
      | some o =>
        have hfilter : (o.readers.filter fun r => !readsAt id 0 n.inputs q r) =
            o.readers.filter fun r => r.owner != .node id := by
          refine List.filter_congr fun r hr => ?_
          obtain ⟨i, hi⟩ := hg.reader_known ho hr
          have hiff : readsAt id 0 n.inputs q r ↔ r.owner = .node id := by
            rw [readsAt_iff hn, hi]
            simp [(hg.agree ho hi).mpr hr]
          rw [Bool.eq_iff_iff, Bool.not_eq_true', ← Bool.not_eq_true, hiff, bne_iff_ne]
        rw [Option.map_some, Option.map_some, hfilter]

theorem cutFrom_source {i : Input} :
    (cutFrom id i).source = some source ↔ i.source = some source ∧ source.owner ≠ .node id := by
  have hnode : source.node? = some id ↔ source.owner = .node id := by
    obtain ⟨owner, index⟩ := source
    cases owner <;> simp [PinRef.node?, Owner.node?]
  rw [cutFrom, Input.sourceNode?]
  cases hs : i.source with
  | none => simp [hs]
  | some s =>
    by_cases hid : s.node? = some id
    · simp only [Option.bind_some, hid, if_true]
      simp only [reduceCtorEq, Option.some.injEq, false_iff, not_and, not_not]
      rintro rfl
      exact hnode.mp hid
    · simp only [Option.bind_some, hid, if_false, hs, Option.some.injEq]
      constructor
      · rintro rfl
        exact ⟨rfl, fun h => hid (hnode.mpr h)⟩
      · exact fun h => h.1

theorem Paired.removeNode (hg : g.Paired) (id : NodeId) : (g.removeNode id).Paired := by
  have hinput : ∀ {q j}, (g.removeNode id).input? q = some j →
      q.owner ≠ .node id ∧ ∃ i, g.input? q = some i ∧ cutFrom id i = j := by
    intro q j hj
    rw [hg.input?_removeNode] at hj
    split at hj
    · cases hj
    · rename_i howner
      exact ⟨howner, Option.map_eq_some_iff.mp hj⟩
  have houtput : ∀ {q p}, (g.removeNode id).output? q = some p → q.owner ≠ .node id ∧ ∃ o, g.output? q = some o ∧
      { o with readers := o.readers.filter fun r => r.owner != .node id } = p := by
    intro q p hp
    rw [hg.output?_removeNode] at hp
    split at hp
    · cases hp
    · rename_i howner
      exact ⟨howner, Option.map_eq_some_iff.mp hp⟩
  refine ⟨?_, ?_, ?_, ?_, ?_⟩
  · rw [Distinct, ids_removeNode]
    exact hg.distinct.filter _
  · intro q j s hj hs
    obtain ⟨-, i, hi, rfl⟩ := hinput hj
    obtain ⟨hs, howner⟩ := cutFrom_source.mp hs
    obtain ⟨o, ho⟩ := hg.source_known hi hs
    exact ⟨_, by rw [hg.output?_removeNode, if_neg howner, ho]; rfl⟩
  · intro s p q hp hq
    obtain ⟨-, o, ho, rfl⟩ := houtput hp
    obtain ⟨hq, howner⟩ := List.mem_filter.mp hq
    obtain ⟨i, hi⟩ := hg.reader_known ho hq
    exact ⟨_, by rw [hg.input?_removeNode, if_neg (by simpa using howner), hi]; rfl⟩
  · intro s q p j hp hj
    obtain ⟨hsource, o, ho, rfl⟩ := houtput hp
    obtain ⟨htarget, i, hi, rfl⟩ := hinput hj
    rw [cutFrom_source, hg.agree ho hi, List.mem_filter]
    simp [hsource, htarget]
  · intro s p hp
    obtain ⟨-, o, ho, rfl⟩ := houtput hp
    exact (hg.once ho).filter _

theorem Linked.removeNode (hg : g.Linked) (id : NodeId) : (g.removeNode id).Linked := by
  have hinput : ∀ {q j}, (g.removeNode id).input? q = some j → ∃ i, g.input? q = some i ∧ cutFrom id i = j := by
    intro q j hj
    rw [hg.input?_removeNode] at hj
    split at hj
    · cases hj
    · exact Option.map_eq_some_iff.mp hj
  have hrest : ∀ i, (cutFrom id i).value = i.value ∧ (cutFrom id i).channels = i.channels ∧
      (cutFrom id i).type = i.type := by
    intro i
    rw [cutFrom]
    split <;> exact ⟨rfl, rfl, rfl⟩
  refine ⟨hg.toPaired.removeNode id, ?_, ?_⟩
  · intro q j hj hs
    obtain ⟨i, hi, rfl⟩ := hinput hj
    obtain ⟨s, hsome⟩ := Option.isSome_iff_exists.mp hs
    rw [(hrest i).1]
    exact hg.bare hi (by rw [(cutFrom_source.mp hsome).1]; rfl)
  · intro q j s p hj hs hp
    rw [hg.output?_removeNode] at hp
    split at hp
    · cases hp
    obtain ⟨o, ho, rfl⟩ := Option.map_eq_some_iff.mp hp
    obtain ⟨i, hi, rfl⟩ := hinput hj
    rw [(hrest i).2.1, (hrest i).2.2]
    have hfit := hg.fits hi (cutFrom_source.mp hs).1 ho
    exact hfit

/-- No node has the identity, and no pin refers to one of it. -/
structure Forgotten (g : Graph) (id : NodeId) : Prop where
  node : id ∉ g.ids
  source : ∀ {target i source}, g.input? target = some i → i.source = some source → source.owner ≠ .node id
  reader : ∀ {source o target}, g.output? source = some o → target ∈ o.readers → target.owner ≠ .node id

theorem Paired.forgotten_removeNode (hg : g.Paired) (id : NodeId) : (g.removeNode id).Forgotten id := by
  refine ⟨?_, ?_, ?_⟩
  · rw [ids_removeNode]
    simp
  · intro target j source hj hs
    rw [hg.input?_removeNode] at hj
    split at hj
    · cases hj
    · obtain ⟨i, -, rfl⟩ := Option.map_eq_some_iff.mp hj
      exact (cutFrom_source.mp hs).2
  · intro source p target hp ht
    rw [hg.output?_removeNode] at hp
    split at hp
    · cases hp
    · obtain ⟨o, -, rfl⟩ := Option.map_eq_some_iff.mp hp
      simpa using (List.mem_filter.mp ht).2

/-! ## Runs -/

theorem Linked.sort (hg : g.Linked) (hsort : g.sort = .ok h) : h.Linked := by
  obtain ⟨hperm, hrest, -, -⟩ := isSortOf_of_sort hg.distinct hsort
  have hnode := hg.distinct.node?_perm hperm
  refine hg.congr (hg.distinct.perm hperm) ?_ ?_
  · rintro ⟨owner, index⟩
    cases owner with
    | graph => rw [hrest]; rfl
    | node x => simp only [input?, hnode]
  · rintro ⟨owner, index⟩
    cases owner with
    | graph => rw [hrest]; rfl
    | node x => simp only [output?, hnode]

/-- The graph that an attempt to connect two pins leaves behind. -/
def afterConnect (g : Graph) (source target : PinRef) : Graph := stateAfter (Edit.connect source target g)

theorem afterConnect_eq (g : Graph) (source target : PinRef) :
    g.afterConnect source target = (g.connect source target).toOption.getD g :=
  (Edit.isAtomic_connect source target).stateAfter_eq g

inductive Step : Graph → Graph → Prop where
  /-- Nodes are added under a new identity and without connections. -/
  | addNode {g : Graph} {n : Node} (hnew : n.id ∉ g.ids) (hn : n.Unconnected) : Step g (g.addNode n)
  | addInputSocket {g : Graph} {s : Output} (hs : s.readers = []) : Step g (g.addInputSocket s)
  | addOutputSocket {g : Graph} {s : Input} (hs : s.source = none) : Step g (g.addOutputSocket s)
  | connect (g : Graph) (source target : PinRef) : Step g (g.afterConnect source target)
  | disconnect (g : Graph) (target : PinRef) : Step g (g.disconnect target)
  | removeNode (g : Graph) (id : NodeId) : Step g (g.removeNode id)
  | sort (g : Graph) : Step g g.afterSort

theorem Linked.step (hg : g.Linked) (hstep : Step g h) : h.Linked := by
  cases hstep with
  | addNode hnew hn => exact hg.extend (extends_addNode hg.distinct hnew hn)
  | addInputSocket hs => exact hg.extend (extends_addInputSocket hg.distinct hs)
  | addOutputSocket hs => exact hg.extend (extends_addOutputSocket hg.distinct hs)
  | connect source target =>
    rw [afterConnect_eq]
    cases hc : g.connect source target with
    | error e => exact hg
    | ok h => exact hg.connect hc
  | disconnect target => exact hg.disconnect target
  | removeNode id => exact hg.removeNode id
  | sort =>
    rw [afterSort_eq]
    cases hsort : g.sort with
    | error e => exact hg
    | ok h => exact hg.sort hsort

theorem Linked.run {start : Graph} (hstart : start.Linked) (hrun : Relation.ReflTransGen Step start g) : g.Linked := by
  induction hrun with
  | refl => exact hstart
  | tail _ hstep ih => exact ih.step hstep

/-- **The records of connections agree behind every run.** Whatever operations were applied to the empty graph, the
graph is linked; an attempt to connect that fails changes nothing, and a node that is removed is forgotten. -/
theorem run_keeps_links (name : String) (g : Graph) (hrun : Relation.ReflTransGen Step (Graph.empty name) g) :
    g.Linked ∧
    (∀ source target e, g.connect source target = .error e → g.afterConnect source target = g) ∧
    ∀ id, (g.removeNode id).Forgotten id := by
  have hg := (Linked.empty name).run hrun
  refine ⟨hg, ?_, hg.forgotten_removeNode⟩
  intro source target e hfail
  rw [afterConnect_eq, hfail]
  rfl

def negation (id : Nat) : Node :=
  { Node.make ⟨id⟩ ("n" ++ toString id) "negate" "ND_negate_float" default .texture with
    inputs := [{ name := "in", type := .float, value := some (.float (.zero false)) }]
    outputs := [{ name := "out", type := .float }] }

/-- Two nodes, the second of which reads the first one and then itself. -/
def echo : Graph :=
  ((((Graph.empty "echo").addNode (negation 0)).addNode (negation 1)).afterConnect (.ofNode ⟨0⟩ 0)
    (.ofNode ⟨1⟩ 0)).afterConnect
    (.ofNode ⟨1⟩ 0) (.ofNode ⟨1⟩ 0)

theorem echo_keeps_links :
    Relation.ReflTransGen Step (Graph.empty "echo") echo ∧
    (echo.input? (.ofNode ⟨1⟩ 0)).bind Input.source = some (.ofNode ⟨1⟩ 0) ∧
    echo.Linked ∧ (echo.removeNode ⟨1⟩).Forgotten ⟨1⟩ := by
  have hbare : ∀ id, (negation id).Unconnected := fun id => ⟨by simp [negation], by simp [negation]⟩
  have hnodes : Relation.ReflTransGen Step (Graph.empty "echo") (((Graph.empty "echo").addNode (negation 0)).addNode
      (negation 1)) :=
    (Relation.ReflTransGen.single (.addNode (by decide) (hbare 0))).tail (.addNode (by decide) (hbare 1))
  have hrun : Relation.ReflTransGen Step (Graph.empty "echo") echo :=
    (hnodes.tail (.connect _ _ _)).tail (.connect _ _ _)
  obtain ⟨hlinked, -, hforgotten⟩ := run_keeps_links "echo" echo hrun
  exact ⟨hrun, by decide, hlinked, hforgotten ⟨1⟩⟩

end Graph
end ShadeGraph

import ShadeGraph.Proofs.Graph.Meaning
import ShadeGraph.Proofs.Graph.Sources

/-!
# Flattening and types

Connecting two pins checks their types, and flattening connects inputs anew without any check. The types still fit
behind it, if the graph of every compound *suits* the node that it implements: inputs of the same names have the same
types, and so have outputs at the same places. Each input that is given a new source expects the type of what it has
read; channels are composed on the way, and so are their types. Nothing is asked of the records of connections but that
what an output lists as a reader reads it.
-/

namespace ShadeGraph.Graph

variable {g h base inner : Graph} {c n m : Node} {i : Input} {o : Output} {id : NodeId} {source target : PinRef}

/-- What the input reads fits through its channels, if it is there. -/
def Fits (g : Graph) (i : Input) : Prop :=
  ∀ p o, i.source = some p → g.output? p = some o → compatible o.type i.channels i.type

/-- Whatever is read and is there fits. -/
def Typed (g : Graph) : Prop := ∀ target i, g.input? target = some i → g.Fits i

theorem Linked.typed (hg : g.Linked) : g.Typed := fun _ _ hi _ _ hs ho => hg.fits hi hs ho

theorem fits_of_free (hfree : i.source = none) : g.Fits i := by
  intro p o hs
  rw [hfree] at hs
  cases hs

theorem type_of_frame (hframe : h.frame = g.frame) (ho : h.output? source = some o) :
    ∃ r, g.output? source = some r ∧ r.type = o.type := by
  obtain ⟨r, hr, heq⟩ := output_of_frame hframe.symm ho
  have htype : r.frame.type = o.frame.type := by rw [heq]
  exact ⟨r, hr, htype⟩

theorem Fits.of_frame (hi : g.Fits i) (hframe : h.frame = g.frame) : h.Fits i := by
  intro p o hs ho
  obtain ⟨r, hr, htype⟩ := type_of_frame hframe ho
  exact htype ▸ hi p r hs hr

/-- The pins of a graph have the types of the pins of the node that it implements. -/
structure Suits (inner : Graph) (n : Node) : Prop where
  inputs : ∀ socket ∈ inner.inputSockets, ∀ i, n.input? socket.name = some i → i.type = socket.type
  outputs : ∀ {k : Nat} {o i}, n.outputs[k]? = some o → inner.outputSockets[k]? = some i → i.type = o.type

theorem Suits.of_frame (hn : inner.Suits n) (hframe : m.frame = n.frame) : inner.Suits m := by
  refine ⟨fun socket hsocket i hi => ?_, fun {k o i} ho hi => ?_⟩
  · have hinputs : m.inputs.map Input.frame = n.inputs.map Input.frame := congrArg Node.inputs hframe
    have hfind := congrArg (List.find? fun i : Input => i.name == socket.name) hinputs
    rw [List.find?_map, List.find?_map] at hfind
    have hfind : (m.input? socket.name).map Input.frame = (n.input? socket.name).map Input.frame := hfind
    rw [hi] at hfind
    obtain ⟨j, hj, heq⟩ := Option.map_eq_some_iff.mp hfind.symm
    have htype : j.frame.type = i.frame.type := by rw [heq]
    exact htype.symm.trans (hn.inputs socket hsocket j hj)
  · have houtputs : m.outputs.map Output.frame = n.outputs.map Output.frame := congrArg Node.outputs hframe
    have hget := congrArg (fun l => l[k]?) houtputs
    simp only [List.getElem?_map, ho, Option.map_some] at hget
    obtain ⟨r, hr, heq⟩ := Option.map_eq_some_iff.mp hget.symm
    have htype : r.frame.type = o.frame.type := by rw [heq]
    exact (hn.outputs hr hi).trans htype

namespace Rewiring

variable {s s₁ s' : Graph × IdSupply} {pairs : List (Node × Node)} {copies : List (NodeId × NodeId)} {j : Input}
  {a : Unit} {name function : String}

/-! ## Rewired inputs -/

/-- What feeds a compound fits, if it is there. -/
def Feeds (base : Graph) (c : Node) : Prop := ∀ i ∈ c.inputs, base.Fits i

/-- The outputs of the copies have the types of the outputs that they are copies of. -/
def Mirrors (base inner : Graph) (copies : List (NodeId × NodeId)) : Prop :=
  ∀ old new index r, copies.lookup old = some new → base.output? (.ofNode new index) = some r →
    ∃ o, inner.output? (.ofNode old index) = some o ∧ o.type = r.type

theorem fits_boundInput (hsuits : inner.Suits c) (hfeeds : Feeds base c) {index : Nat} (hfree : i.source = none)
    (hexpects : ∀ socket, inner.inputSockets[index]? = some socket → compatible socket.type i.channels i.type)
    (hj : boundInput c inner index i = .ok j) : base.Fits j := by
  unfold boundInput at hj
  split at hj
  · exact Except.ok.inj hj ▸ fits_of_free hfree
  · rename_i socket hsocket
    split at hj
    · obtain ⟨value, -, hj⟩ := except_bind_eq_ok.mp hj
      exact Except.ok.inj hj ▸ fits_of_free hfree
    · rename_i outer houter
      split at hj
      · rename_i source hsource
        obtain ⟨channels, hchannels, hj⟩ := except_bind_eq_ok.mp hj
        obtain rfl := Except.ok.inj hj
        intro p o hp ho
        obtain rfl := Option.some.inj hp
        have hfits := hfeeds outer (List.mem_of_find?_eq_some houter) source o hsource ho
        have hexpects := hexpects socket hsocket
        rw [← hsuits.inputs socket (List.mem_of_getElem? hsocket) outer houter] at hexpects
        exact compatible_composeChannels hfits hexpects hchannels
      · obtain ⟨value, -, hj⟩ := except_bind_eq_ok.mp hj
        exact Except.ok.inj hj ▸ fits_of_free hfree

section
variable (hsuits : inner.Suits c) (hfeeds : Feeds base c) (hmirrors : Mirrors base inner copies)
  (hfree : i.source = none)
include hsuits hfeeds hmirrors hfree

theorem fits_rewiredInput
    (hexpects : ∀ o, inner.output? source = some o → compatible o.type i.channels i.type)
    (hj : rewiredInput c inner copies source i = .ok j) : base.Fits j := by
  obtain ⟨owner, index⟩ := source
  cases owner with
  | graph => exact fits_boundInput hsuits hfeeds hfree hexpects hj
  | node old =>
    unfold rewiredInput at hj
    dsimp only at hj
    split at hj
    · rename_i new hcopy
      obtain rfl := Except.ok.inj hj
      intro p r hp hr
      obtain rfl := Option.some.inj hp
      obtain ⟨o, ho, htype⟩ := hmirrors old new index r hcopy hr
      exact htype ▸ hexpects o ho
    · exact Except.ok.inj hj ▸ fits_of_free hfree

theorem fits_readerInput (hinner : inner.Typed) {k : Nat} {socket : Input}
    (hsocket : inner.outputSockets[k]? = some socket) (hexpects : compatible socket.type i.channels i.type)
    (hj : readerInput c inner copies socket i = .ok j) : base.Fits j := by
  obtain ⟨channels, hchannels, hj⟩ := except_bind_eq_ok.mp hj
  split at hj
  · rename_i source hsource
    refine fits_rewiredInput (i := { i with channels }) hsuits hfeeds hmirrors hfree (fun o ho => ?_) hj
    exact compatible_composeChannels (hinner (.socket k) socket hsocket source o hsource ho) hexpects hchannels
  · obtain ⟨value, -, hj⟩ := except_bind_eq_ok.mp hj
    exact Except.ok.inj hj ▸ fits_of_free hfree

end

end Rewiring

/-! ## Replacing a compound -/

/-- A graph on the way to one without compounds, in which types fit and the graphs of all compounds suit them. -/
structure Sound (ids : IdSupply) (g : Graph) : Prop extends g.Tidy ids where
  listed : g.Listed
  typed : g.Typed
  compounds : ∀ n ∈ g.nodes, ∀ name function inner, n.implementation = .compound name function inner →
    inner.Typed ∧ inner.Suits n

namespace Rewiring

variable {s s₁ s' : Graph × IdSupply} {pairs : List (Node × Node)} {j : Input} {a : Unit} {name function : String}

theorem output_of_removeNode (ho : (g.removeNode id).output? source = some o) :
    ∃ r, g.output? source = some r ∧ r.type = o.type := by
  obtain ⟨r, hr, htype⟩ := type_of_frame (frame_removeNode g id) ho
  rw [output?_dropNode] at hr
  split at hr
  · cases hr
  · exact ⟨r, hr, htype⟩

section
variable (hs : s.1.Tidy s.2) (hp : Prepared s c inner pairs s₁)
include hs hp

theorem type_of_connected (hconnects : s.1.Connects source target) (ho : s₁.1.output? source = some o) :
    ∃ r, s.1.output? source = some r ∧ r.type = o.type := by
  obtain ⟨owner, k⟩ := source
  cases owner with
  | graph =>
    rw [hp.copying.graph] at ho
    have ho : (s.1.removeNode c.id).output? (.socket k) = some o := ho
    exact output_of_removeNode ho
  | node id =>
    obtain ⟨n, hn, hk⟩ := Option.bind_eq_some_iff.mp ho
    rcases hp.copying.node_cases (hs.toOwned.removeNode c.id) hn with hold | ⟨q, hq, rfl⟩
    · have hold : (s.1.removeNode c.id).output? (.ofNode id k) = some o := Option.bind_eq_some_iff.mpr ⟨n, hold, hk⟩
      exact output_of_removeNode hold
    · obtain rfl := id_of_node? hn
      have hissued : s.2.Issued q.2.id := by
        rcases hs.sources hconnects with ⟨o', ho'⟩ | ⟨id, -, howner, hissued⟩
        · obtain ⟨n, hn, -⟩ := Option.bind_eq_some_iff.mp ho'
          exact hs.issued _ (mem_ids_of_node? hn)
        · exact Owner.node.inj howner ▸ hissued
      exact absurd hissued (hp.copying.fresh q hq)

theorem feeds_of_prepared (htyped : s.1.Typed) : Feeds s₁.1 c := by
  intro i hi p o hsource ho
  obtain ⟨k, hk⟩ := List.mem_iff_getElem?.mp hi
  have hinput : s.1.input? (.ofNode c.id k) = some i := by simp [input?, PinRef.ofNode, hp.found, hk]
  obtain ⟨r, hr, htype⟩ := type_of_connected hs hp ⟨i, hinput, hsource⟩ ho
  exact htype ▸ htyped _ i hinput p r hsource hr

end

theorem mirrors_of_prepared (hp : Prepared s c inner pairs s₁) : Mirrors s₁.1 inner (copyIds pairs) := by
  intro old new k r hlookup hr
  obtain ⟨q, hq, rfl, rfl⟩ := lookup_copyIds hlookup
  rw [hp.output_copy hq, Option.map_eq_some_iff] at hr
  obtain ⟨o, ho, rfl⟩ := hr
  exact ⟨o, ho, rfl⟩

theorem fits_of_done (hs : s.1.Sound s.2) (hp : Prepared s c inner pairs s₁) (htyped : inner.Typed)
    (hsuits : inner.Suits c) (hdone : Done Listed s₁.1 h (allJobs c inner (copyIds pairs)))
    (hj : h.input? target = some j) : s₁.1.Fits j := by
  have hfeeds := feeds_of_prepared hs.toTidy hp hs.typed
  have hmirrors := mirrors_of_prepared hp
  rcases hp.input_of_done hdone hj with ⟨i, hi, houter⟩ | ⟨q, hq, k, i, rfl, hi, hj⟩
  · cases houter with
    | kept hother =>
      intro p o hsource ho
      obtain ⟨r, hr, htype⟩ := type_of_connected hs.toTidy hp ⟨j, hi, hsource⟩ ho
      exact htype ▸ hs.typed target j hi p r hsource hr
    | released houtput hreader hsocket => exact fits_of_free rfl
    | @reader k output socket _ houtput hreader hsocket hj =>
      have ho := hp.output_of_compound houtput
      obtain ⟨i', hi', hsource⟩ := hs.listed.reads ho hreader
      obtain rfl := Option.some.inj (hi.symm.trans hi')
      refine fits_readerInput hsuits hfeeds hmirrors rfl htyped hsocket ?_ hj
      rw [hsuits.outputs houtput hsocket]
      exact hs.typed target i hi _ output hsource ho
  · unfold innerInput at hj
    split at hj
    · rename_i source hsource
      exact fits_rewiredInput (i := { i with source := none }) hsuits hfeeds hmirrors rfl
        (fun o ho => htyped _ i hi source o hsource ho) hj
    · rename_i hsource
      exact Except.ok.inj hj ▸ fits_of_free hsource

theorem compound_of_inlineCompound {n : Node} {name' function' : String} {inner' : Graph}
    (hpick : Function.Injective s.2.pick) (hinner : ∀ m ∈ inner.nodes, m.implementation.isCompound = false)
    (h : inlineCompound c inner s = .ok a s') (hn : n ∈ s'.1.nodes)
    (hn' : n.implementation = .compound name' function' inner') :
    ∃ m ∈ s.1.nodes, m.implementation = .compound name' function' inner' ∧ m.frame = n.frame := by
  rcases frame_of_inlineCompound hpick h hn with ⟨m, hm, hframe⟩ | ⟨m, hm, -, hsame⟩
  · exact ⟨m, hm, (congrArg Node.implementation hframe :).trans hn', hframe⟩
  · have hflat := hinner m hm
    rw [hsame, hn'] at hflat
    cases hflat

/-- **Replacing a compound keeps types**, if its graph suits it. -/
theorem sound_inlineCompound (hpick : Function.Injective s.2.pick) (hs : s.1.Sound s.2) (hc : c ∈ s.1.nodes)
    (himplementation : c.implementation = .compound name function inner) (h : inlineCompound c inner s = .ok a s') :
    s'.1.Sound s'.2 := by
  have hplain := hs.inner c hc name function inner himplementation
  obtain ⟨htyped, hsuits⟩ := hs.compounds c hc name function inner himplementation
  have hfound := hs.distinct.node?_of_mem hc
  obtain ⟨pairs, s₁, hp, hdone⟩ := done_of_inlineCompound hpick hs.toOwned hs.listed hfound hplain.toLoose h
  refine ⟨tidy_inlineCompound hpick hs.toTidy hc himplementation h, hdone.records,
    fun target i hi => (fits_of_done hs hp htyped hsuits hdone hi).of_frame hdone.frame,
    fun n hn name' function' inner' hn' => ?_⟩
  obtain ⟨m, hm, hm', hframe⟩ := compound_of_inlineCompound hpick hplain.flat h hn hn'
  obtain ⟨htyped', hsuits'⟩ := hs.compounds m hm name' function' inner' hm'
  exact ⟨htyped', hsuits'.of_frame hframe.symm⟩

/-- **Flattening keeps types**, if the graphs of all compounds suit them. -/
theorem typed_flatten (hpick : Function.Injective s.2.pick) (hs : s.1.Sound s.2) (h : Rewiring.flatten s = .ok a s') :
    s'.1.Typed :=
  (flatten_keeps (P := fun s => s.1.Sound s.2) sound_inlineCompound hpick hs h).2.typed

end Rewiring
end ShadeGraph.Graph

import ShadeGraph.Proofs.Graph.Frame

/-!
# What flattening does to inputs

Replacing a compound goes input by input: every input of an inner node and every input that read the compound is given a
new source or a literal, and nothing else in the graph changes but the lists of readers. A step that rewires inputs
performs a list of jobs, one for each input; the jobs say what becomes of the inputs, and the records of connections
agree behind them as they did before. How far they agree is up to the graph: that what an output lists as a reader reads
it is enough for the jobs not to get in each other's way.
-/

namespace ShadeGraph.Graph

variable {g h base : Graph} {id : NodeId} {p q source target : PinRef} {n : Node} {i : Input} {o : Output}

/-! ## Records of connections -/

theorem Paired.modifyInput (hg : g.Paired) {f : Input → Input} (hf : ∀ i, (f i).source = i.source) (p : PinRef) :
    (g.modifyInput p f).Paired := by
  have hinput : ∀ {q j}, (g.modifyInput p f).input? q = some j → ∃ i, g.input? q = some i ∧ j.source = i.source := by
    intro q j hj
    rw [input?_modifyInput, Option.map_eq_some_iff] at hj
    obtain ⟨i, hi, rfl⟩ := hj
    refine ⟨i, hi, ?_⟩
    split
    · exact hf i
    · rfl
  refine ⟨?_, ?_, ?_, ?_, ?_⟩
  · rw [Distinct, ids_modifyInput]
    exact hg.distinct
  · intro target j source hj hs
    obtain ⟨i, hi, heq⟩ := hinput hj
    rw [output?_modifyInput]
    exact hg.source_known hi (heq ▸ hs)
  · intro source o target ho ht
    rw [output?_modifyInput] at ho
    obtain ⟨i, hi⟩ := hg.reader_known ho ht
    exact ⟨_, by rw [input?_modifyInput, hi]; rfl⟩
  · intro source target o j ho hj
    rw [output?_modifyInput] at ho
    obtain ⟨i, hi, heq⟩ := hinput hj
    rw [heq]
    exact hg.agree ho hi
  · intro source o ho
    rw [output?_modifyInput] at ho
    exact hg.once ho

theorem Linked.connect_modified (hg : g.Linked) {f : Input → Input} (hf : ∀ i, (f i).source = i.source)
    (hc : (g.modifyInput target f).connect source target = .ok h) : h.Linked := by
  have hpaired := hg.toPaired.modifyInput hf target
  obtain ⟨o, i, ho, hi, hfit, rfl⟩ := connect_cases hc
  have hfree : ((g.modifyInput target f).disconnect target).Linked := by
    refine hg.of_connected (hpaired.disconnect target) (fun {q j} hj hs => ?_) fun {q p} hp => ?_
    · rw [input?_disconnect, input?_modifyInput, Option.map_map, Option.map_eq_some_iff] at hj
      obtain ⟨j', hj', rfl⟩ := hj
      by_cases hq : q = target
      · simp [hq] at hs
      · simp [hq, hj']
    · rw [hpaired.output?_disconnect, output?_modifyInput, Option.map_eq_some_iff] at hp
      obtain ⟨p', hp', rfl⟩ := hp
      exact ⟨p', hp', rfl⟩
  have ho' := hpaired.output?_disconnect target source
  rw [ho] at ho'
  exact hfree.link (input?_disconnect_self hi) rfl ho' hfit

theorem Listed.modifyInput (hg : g.Listed) {f : Input → Input} (hf : ∀ i, (f i).source = i.source) (p : PinRef) :
    (g.modifyInput p f).Listed := by
  refine ⟨fun {source o target} ho ht => ?_, fun {source o} ho => ?_⟩
  · rw [output?_modifyInput] at ho
    obtain ⟨i, hi, hs⟩ := hg.reads ho ht
    refine ⟨_, by rw [input?_modifyInput, hi]; rfl, ?_⟩
    split
    · rw [hf, hs]
    · exact hs
  · rw [output?_modifyInput] at ho
    exact hg.once ho

theorem Listed.link (hg : g.Listed) (hi : g.input? target = some i) (hfree : i.source = none) (source : PinRef) :
    (g.link source target).Listed := by
  have hunread : ∀ {q o}, g.output? q = some o → target ∉ o.readers := by
    intro q o ho hmem
    obtain ⟨i', hi', hs⟩ := hg.reads ho hmem
    obtain rfl := Option.some.inj (hi.symm.trans hi')
    rw [hfree] at hs
    cases hs
  have houtput : ∀ {q p}, (g.link source target).output? q = some p → ∃ p', g.output? q = some p' ∧
      (if q = source then { p' with readers := p'.readers ++ [target] } else p') = p := by
    intro q p hp
    rw [output?_link, Option.map_eq_some_iff] at hp
    obtain ⟨p', hp', rfl⟩ := hp
    exact ⟨p', hp', by simp [hunread hp']⟩
  have hold : ∀ {q p r}, g.output? q = some p → r ∈ p.readers →
      ∃ j, (g.link source target).input? r = some j ∧ j.source = some q := by
    intro q p r hp hr
    obtain ⟨j, hj, hs⟩ := hg.reads hp hr
    have hne : r ≠ target := fun heq => hunread hp (heq ▸ hr)
    exact ⟨j, by rw [input?_link, hj]; simp [hne], hs⟩
  refine ⟨fun {q p r} hp hr => ?_, fun {q p} hp => ?_⟩
  · obtain ⟨p', hp', rfl⟩ := houtput hp
    split at hr
    · rename_i hq
      rcases List.mem_append.mp hr with hr | hr
      · exact hold hp' hr
      · obtain rfl := List.mem_singleton.mp hr
        exact ⟨_, by rw [input?_link, hi]; rfl, by simp [hq]⟩
    · exact hold hp' hr
  · obtain ⟨p', hp', rfl⟩ := houtput hp
    split
    · rw [← List.concat_eq_append]
      exact (hg.once hp').concat (hunread hp')
    · exact hg.once hp'

theorem Listed.extend (hg : g.Listed) (hext : h.Extends g) : h.Listed := by
  refine ⟨fun {source o target} ho ht => ?_, fun {source o} ho => ?_⟩
  · rcases hext.output_new ho with ho | ⟨-, hnone⟩
    · obtain ⟨i, hi, hs⟩ := hg.reads ho ht
      exact ⟨i, hext.input_kept hi, hs⟩
    · rw [hnone] at ht
      cases ht
  · rcases hext.output_new ho with ho | ⟨-, hnone⟩
    · exact hg.once ho
    · rw [hnone]
      exact List.nodup_nil

theorem input_of_removeNode (hn : g.node? id = some n) (hi : (g.removeNode id).input? target = some i) :
    target.owner ≠ .node id ∧ ∃ j, g.input? target = some j ∧
      i = if target ∈ n.outputs.flatMap Output.readers then { j with source := none } else j := by
  rw [removeNode_eq hn, input?_release, input?_forgetInputs, input?_dropNode, Option.map_eq_some_iff] at hi
  obtain ⟨j, hj, rfl⟩ := hi
  split at hj
  · cases hj
  · rename_i howner
    exact ⟨howner, j, hj, rfl⟩

theorem Listed.removeNode (hg : g.Listed) (id : NodeId) : (g.removeNode id).Listed := by
  cases hn : g.node? id with
  | none => rwa [removeNode_of_unknown hn]
  | some n =>
    have houtput : ∀ {q p}, (g.removeNode id).output? q = some p → q.owner ≠ .node id ∧ ∃ o, g.output? q = some o ∧
        p.readers = o.readers.filter fun r => !readsAt id 0 n.inputs q r := by
      intro q p hp
      rw [removeNode_eq hn, output?_release, output?_forgetInputs, output?_dropNode] at hp
      split at hp
      · cases hp
      · rename_i howner
        obtain ⟨o, ho, rfl⟩ := Option.map_eq_some_iff.mp hp
        exact ⟨howner, o, ho, rfl⟩
    refine ⟨fun {q p r} hp hr => ?_, fun {q p} hp => ?_⟩
    · obtain ⟨hq, o, ho, heq⟩ := houtput hp
      rw [heq, List.mem_filter] at hr
      obtain ⟨hr, hleft⟩ := hr
      obtain ⟨i, hi, hs⟩ := hg.reads ho hr
      have howner : r.owner ≠ .node id := by
        intro howner
        rw [(readsAt_iff hn).mpr ⟨howner, i, hi, hs⟩] at hleft
        cases hleft
      have hkept : r ∉ n.outputs.flatMap Output.readers := by
        intro hmem
        obtain ⟨o', ho', hr'⟩ := List.mem_flatMap.mp hmem
        obtain ⟨k, hk⟩ := List.getElem?_of_mem ho'
        have hout : g.output? (.ofNode id k) = some o' := by simp [output?, PinRef.ofNode, hn, hk]
        obtain ⟨i', hi', hs'⟩ := hg.reads hout hr'
        obtain rfl := Option.some.inj (hi.symm.trans hi')
        rw [hs] at hs'
        exact hq (by rw [Option.some.inj hs']; rfl)
      refine ⟨i, ?_, hs⟩
      rw [removeNode_eq hn, input?_release, input?_forgetInputs, input?_dropNode, if_neg howner, hi]
      simp [hkept]
    · obtain ⟨-, o, ho, heq⟩ := houtput hp
      rw [heq]
      exact (hg.once ho).filter _

/-- What is kept of the records of connections, in a graph with a given frame, when an input is changed but for its
source, or when one that reads nothing is linked to a source of some kind. -/
structure Records (base : Graph) (Known : PinRef → Prop) (K : Graph → Prop) : Prop where
  modifyInput : ∀ {g : Graph} {f : Input → Input}, K g → (∀ i, (f i).source = i.source) → ∀ p, K (g.modifyInput p f)
  link : ∀ {g : Graph} {source target i}, g.frame = base.frame → K g → g.input? target = some i → i.source = none →
    Known source → K (g.link source target)

theorem known_of_frame (hframe : h.frame = base.frame) (ho : base.output? source = some o) :
    ∃ r, h.output? source = some r := by
  obtain ⟨r, hr, -⟩ := output_of_frame hframe ho
  exact ⟨r, hr⟩

theorem records_paired (base : Graph) : Records base (fun p => ∃ o, base.output? p = some o) Paired where
  modifyInput hg hf := hg.modifyInput hf
  link hframe hg hi hfree := by
    rintro ⟨o, ho⟩
    obtain ⟨r, hr⟩ := known_of_frame hframe ho
    exact hg.link hi hfree hr

theorem records_listed (base : Graph) : Records base (fun _ => True) Listed where
  modifyInput hg hf := hg.modifyInput hf
  link _ hg hi hfree _ := hg.link hi hfree _

/-- A source that is in the graph, or a pin of a node that is not. -/
def Tame (g : Graph) (p : PinRef) : Prop := (∃ o, g.output? p = some o) ∨ ∃ id ∉ g.ids, p.owner = .node id

/-- The nodes have identities of their own, and what is read is there, or a pin of a node that is not. -/
structure Loose (g : Graph) : Prop where
  distinct : g.Distinct
  tame : ∀ {target i source}, g.input? target = some i → i.source = some source → g.Tame source

theorem Paired.loose (hg : g.Paired) : g.Loose := ⟨hg.distinct, fun hi hs => .inl (hg.source_known hi hs)⟩

theorem Loose.tame_of_node (hg : g.Loose) (hn : n ∈ g.nodes) (hi : i ∈ n.inputs) (hs : i.source = some source) :
    g.Tame source := by
  obtain ⟨index, hindex⟩ := List.mem_iff_getElem?.mp hi
  have hinput : g.input? (.ofNode n.id index) = some i := by
    simp [input?, PinRef.ofNode, hg.distinct.node?_of_mem hn, hindex]
  exact hg.tame hinput hs

theorem Loose.tame_of_socket (hg : g.Loose) (hi : i ∈ g.outputSockets) (hs : i.source = some source) :
    g.Tame source := by
  obtain ⟨index, hindex⟩ := List.mem_iff_getElem?.mp hi
  have hinput : g.input? (.socket index) = some i := hindex
  exact hg.tame hinput hs

/-! ## Jobs -/

/-- What is to become of an input. -/
structure Job where
  target : PinRef
  change : Input → Except Error Input

variable {Known : PinRef → Prop} {K : Graph → Prop} {jobs jobs₁ jobs₂ : List Job}

/-- The inputs of a list of jobs have been changed, and nothing else. -/
structure Done (K : Graph → Prop) (h h' : Graph) (jobs : List Job) : Prop where
  frame : h'.frame = h.frame
  records : K h'
  changed : ∀ job ∈ jobs, ∀ i, h.input? job.target = some i →
    ∃ i', job.change i = .ok i' ∧ h'.input? job.target = some i'
  kept : ∀ q, q ∉ jobs.map Job.target → h'.input? q = h.input? q

/-- The inputs of a list of jobs differ and read nothing, in a graph with a given frame. -/
structure Waiting (K : Graph → Prop) (base : Graph) (jobs : List Job) (g : Graph) : Prop where
  frame : g.frame = base.frame
  records : K g
  nodup : (jobs.map Job.target).Nodup
  free : ∀ job ∈ jobs, ∀ i, g.input? job.target = some i → i.source = none

theorem Waiting.left (hg : Waiting K base (jobs₁ ++ jobs₂) g) : Waiting K base jobs₁ g :=
  ⟨hg.frame, hg.records, (List.map_append ▸ hg.nodup).of_append_left,
    fun job hjob => hg.free job (List.mem_append_left _ hjob)⟩

theorem Waiting.input_of_done (hg : Waiting K base (jobs₁ ++ jobs₂) g) (hdone : Done K g h jobs₁) {job : Job}
    (hjob : job ∈ jobs₂) : h.input? job.target = g.input? job.target := by
  have hnodup := hg.nodup
  rw [List.map_append, List.nodup_append] at hnodup
  exact hdone.kept _ fun hmem => hnodup.2.2 _ hmem _ (List.mem_map_of_mem hjob) rfl

theorem Waiting.right (hg : Waiting K base (jobs₁ ++ jobs₂) g) (hdone : Done K g h jobs₁) : Waiting K base jobs₂ h := by
  refine ⟨hdone.frame.trans hg.frame, hdone.records, (List.map_append ▸ hg.nodup).of_append_right, ?_⟩
  intro job hjob i hi
  exact hg.free job (List.mem_append_right _ hjob) i ((hg.input_of_done hdone hjob).symm.trans hi)

theorem Waiting.done_append {k : Graph} (hg : Waiting K base (jobs₁ ++ jobs₂) g) (h₁ : Done K g h jobs₁)
    (h₂ : Done K h k jobs₂) : Done K g k (jobs₁ ++ jobs₂) := by
  refine ⟨h₂.frame.trans h₁.frame, h₂.records, fun job hjob i hi => ?_, fun q hq => ?_⟩
  · rcases List.mem_append.mp hjob with hjob | hjob
    · obtain ⟨i', hchange, hi'⟩ := h₁.changed job hjob i hi
      have hnodup := hg.nodup
      rw [List.map_append, List.nodup_append] at hnodup
      refine ⟨i', hchange, ?_⟩
      rw [h₂.kept _ fun hmem => hnodup.2.2 _ (List.mem_map_of_mem hjob) _ hmem rfl]
      exact hi'
    · exact h₂.changed job hjob i ((hg.input_of_done h₁ hjob).trans hi)
  · rw [List.map_append, List.mem_append, not_or] at hq
    rw [h₂.kept q hq.2, h₁.kept q hq.1]

/-- One input has become another one, and nothing else has changed. -/
structure Becomes (K : Graph → Prop) (g h : Graph) (target : PinRef) (i : Input) : Prop where
  frame : h.frame = g.frame
  records : K h
  input : h.input? target = some i
  kept : ∀ q, q ≠ target → h.input? q = g.input? q

theorem Becomes.refl (hg : K g) (hi : g.input? target = some i) : Becomes K g g target i :=
  ⟨rfl, hg, hi, fun _ _ => rfl⟩

theorem Becomes.trans {k : Graph} {j : Input} (h₁ : Becomes K g h target i) (h₂ : Becomes K h k target j) :
    Becomes K g k target j :=
  ⟨h₂.frame.trans h₁.frame, h₂.records, h₂.input, fun q hq => (h₂.kept q hq).trans (h₁.kept q hq)⟩

theorem Becomes.done {change : Input → Except Error Input} {j : Input} (h' : Becomes K g h target j)
    (hi : g.input? target = some i) (hchange : change i = .ok j) : Done K g h [⟨target, change⟩] := by
  refine ⟨h'.frame, h'.records, ?_, fun q hq => h'.kept q (by simpa using hq)⟩
  rintro job hjob i' hi'
  obtain rfl := List.mem_singleton.mp hjob
  obtain rfl := Option.some.inj (hi.symm.trans hi')
  exact ⟨j, hchange, h'.input⟩

section
variable (hK : Records base Known K)
include hK

theorem becomes_modifyInput {f : Input → Input} (hg : K g) (hi : g.input? target = some i)
    (hframe : ∀ i, (f i).frame = i.frame) (hsource : ∀ i, (f i).source = i.source) :
    Becomes K g (g.modifyInput target f) target (f i) := by
  refine ⟨frame_modifyInput hframe g target, hK.modifyInput hg hsource target, ?_, fun q hq => ?_⟩
  · rw [input?_modifyInput, hi]
    simp
  · rw [input?_modifyInput]
    simp [hq]

theorem becomes_link (hframe : g.frame = base.frame) (hg : K g) (hi : g.input? target = some i)
    (hfree : i.source = none) (hknown : Known source) :
    Becomes K g (g.link source target) target { i with source := some source, value := none } := by
  refine ⟨frame_link g source target, hK.link hframe hg hi hfree hknown, ?_, fun q hq => ?_⟩
  · rw [input?_link, hi]
    simp
  · rw [input?_link]
    simp [hq]

end

namespace Rewiring

variable {α : Type} {s s' : Graph × IdSupply}

theorem current_bind {m : Graph → Rewiring α} : (current >>= m) s = m s.1 s := rfl

/-- A step that ends well if all jobs can be done, and then has done them. -/
structure Does (K : Graph → Prop) (base : Graph) (m : Rewiring Unit) (jobs : List Job) : Prop where
  performs : ∀ s a s', Waiting K base jobs s.1 → m s = .ok a s' → s'.2 = s.2 ∧ Done K s.1 s'.1 jobs
  completes : ∀ s, Waiting K base jobs s.1 →
    (∀ job ∈ jobs, ∀ i, s.1.input? job.target = some i → ∃ j, job.change i = .ok j) → ∃ a s', m s = .ok a s'

theorem Does.nothing : Does K base (pure ()) [] := by
  refine ⟨fun s a s' hs h => ?_, fun s _ _ => ⟨(), s, rfl⟩⟩
  obtain ⟨-, rfl⟩ := state_pure_eq_ok.mp h
  exact ⟨rfl, rfl, hs.records, fun job hjob => absurd hjob List.not_mem_nil, fun q _ => rfl⟩

theorem Does.bind {m₁ m₂ : Rewiring Unit} (h₁ : Does K base m₁ jobs₁) (h₂ : Does K base m₂ jobs₂) :
    Does K base (m₁ >>= fun _ => m₂) (jobs₁ ++ jobs₂) := by
  refine ⟨fun s a s' hs h => ?_, fun s hs hready => ?_⟩
  · obtain ⟨a₁, s₁, hm₁, hm₂⟩ := state_bind_eq_ok.mp h
    obtain ⟨hids₁, hdone₁⟩ := h₁.performs s a₁ s₁ hs.left hm₁
    obtain ⟨hids₂, hdone₂⟩ := h₂.performs s₁ a s' (hs.right hdone₁) hm₂
    exact ⟨hids₂.trans hids₁, hs.done_append hdone₁ hdone₂⟩
  · obtain ⟨a, s₁, hm₁⟩ := h₁.completes s hs.left fun job hjob => hready job (List.mem_append_left _ hjob)
    obtain ⟨-, hdone⟩ := h₁.performs s a s₁ hs.left hm₁
    refine state_exists_bind hm₁ (h₂.completes s₁ (hs.right hdone) fun job hjob i hi => ?_)
    exact hready job (List.mem_append_right _ hjob) i ((hs.input_of_done hdone hjob).symm.trans hi)

theorem Does.forM {f : α → Rewiring Unit} {work : α → List Job} (l : List α)
    (hf : ∀ a ∈ l, Does K base (f a) (work a)) : Does K base (l.forM f) (l.flatMap work) := by
  induction l with
  | nil => exact .nothing
  | cons a l ih =>
    rw [List.flatMap_cons]
    exact .bind (hf a List.mem_cons_self) (ih fun b hb => hf b (List.mem_cons_of_mem a hb))

/-! ## What becomes of an input -/

section
variable (compound : Node) (inner : Graph) (copies : List (NodeId × NodeId))

/-- An input that has read an inner input socket takes over what feeds the compound there. -/
def boundInput (socket : Nat) (i : Input) : Except Error Input :=
  match inner.inputSockets[socket]? with
  | none => .ok i
  | some s =>
    match compound.input? s.name with
    | none => do
      let value ← literalFor s.value i.channels i.type
      pure { i with value, channels := none }
    | some outer =>
      match outer.source with
      | some source => do
        let channels ← composeChannels outer.channels i.channels outer.type
        pure { i with channels, source := some source, value := none }
      | none => do
        let value ← literalFor outer.value i.channels i.type
        pure { i with
          value
          channels := none
          path := if i.channels.isNone then outer.path else i.path
          uniform := i.uniform || outer.uniform }

/-- An input that has read an inner pin reads its copy, or what is bound to it. -/
def rewiredInput (source : PinRef) (i : Input) : Except Error Input :=
  match source.owner with
  | .graph => boundInput compound inner source.index i
  | .node old =>
    match copies.lookup old with
    | some new => .ok { i with source := some (.ofNode new source.index), value := none }
    | none => .ok i

/-- An input that has read an output of the compound reads what drives the socket behind it. -/
def readerInput (socket i : Input) : Except Error Input := do
  let channels ← composeChannels socket.channels i.channels socket.type
  match socket.source with
  | some source => rewiredInput compound inner copies source { i with channels }
  | none => do
    let value ← literalFor socket.value channels i.type
    pure { i with value, channels := none }

end

/-! ## Steps -/

/-- A step that makes of an input what has been computed for it, and fails if nothing could be. -/
def Yields (K : Graph → Prop) (m : Rewiring Unit) (s : Graph × IdSupply) (target : PinRef) : Except Error Input → Prop
  | .ok j => ∃ h, m s = .ok () (h, s.2) ∧ Becomes K s.1 h target j
  | .error _ => ∀ a s', m s ≠ .ok a s'

namespace Yields

variable {m : Rewiring Unit} {f : Graph → Graph} {j : Input}

theorem nothing (hs : K s.1) (hi : s.1.input? target = some i) : Yields K (pure ()) s target (.ok i) :=
  ⟨s.1, rfl, .refl hs hi⟩

theorem update (h : Becomes K s.1 (f s.1) target j) : Yields K (Rewiring.update f) s target (.ok j) := ⟨_, rfl, h⟩

theorem lift {x : Except Error α} {m : α → Rewiring Unit} {change : α → Except Error Input}
    (h : ∀ a, Yields K (m a) s target (change a)) : Yields K (liftM x >>= m) s target (x >>= change) := by
  cases x with
  | error e => exact fun a s' h => by cases h
  | ok a => exact h a

theorem current {x : Except Error Input} {m : Graph → Rewiring Unit} (h : Yields K (m s.1) s target x) :
    Yields K (Rewiring.current >>= m) s target x := by
  cases x <;> exact h

theorem after {x : Except Error Input} (h : Becomes K s.1 (f s.1) target j)
    (hm : Yields K m (f s.1, s.2) target x) : Yields K (Rewiring.update f >>= fun _ => m) s target x := by
  cases x with
  | error e => exact hm
  | ok i =>
    obtain ⟨h', hrun, hbecomes⟩ := hm
    exact ⟨h', hrun, h.trans hbecomes⟩

end Yields

theorem Does.of_yields {m : Rewiring Unit} {change : Input → Except Error Input}
    (hmissing : ∀ s, s.1.frame = base.frame → s.1.input? target = none → m s = .ok () s)
    (hyields : ∀ s i, s.1.frame = base.frame → K s.1 → s.1.input? target = some i → i.source = none →
      Yields K m s target (change i)) : Does K base m [⟨target, change⟩] := by
  refine ⟨fun s a s' hs h => ?_, fun s hs hready => ?_⟩
  · cases hi : s.1.input? target with
    | none =>
      rw [hmissing s hs.frame hi] at h
      cases h
      refine ⟨rfl, rfl, hs.records, fun job hjob i hi' => ?_, fun _ _ => rfl⟩
      obtain rfl := List.mem_singleton.mp hjob
      rw [hi] at hi'
      cases hi'
    | some i =>
      have hmade := hyields s i hs.frame hs.records hi (hs.free _ (List.mem_singleton_self _) i hi)
      cases hchange : change i with
      | error e =>
        rw [hchange] at hmade
        exact absurd h (hmade a s')
      | ok j =>
        rw [hchange] at hmade
        obtain ⟨h', hrun, hbecomes⟩ := hmade
        rw [hrun] at h
        cases h
        exact ⟨rfl, hbecomes.done hi hchange⟩
  · cases hi : s.1.input? target with
    | none => exact ⟨_, _, hmissing s hs.frame hi⟩
    | some i =>
      have hmade := hyields s i hs.frame hs.records hi (hs.free _ (List.mem_singleton_self _) i hi)
      obtain ⟨j, hj⟩ := hready _ (List.mem_singleton_self _) i hi
      simp only at hj
      rw [hj] at hmade
      obtain ⟨h', hrun, -⟩ := hmade
      exact ⟨_, _, hrun⟩

section
variable {compound : Node} {inner : Graph} {copies : List (NodeId × NodeId)}

/-- What feeds a compound is known. -/
def Fed (Known : PinRef → Prop) (compound : Node) : Prop :=
  ∀ i ∈ compound.inputs, ∀ source, i.source = some source → Known source

/-- The copies of the outputs of the inner nodes are known. -/
def Copied (Known : PinRef → Prop) (inner : Graph) (copies : List (NodeId × NodeId)) : Prop :=
  ∀ old new index, copies.lookup old = some new → inner.Tame (.ofNode old index) → Known (.ofNode new index)

section
variable (hK : Records base Known K) (hfed : Fed Known compound) (hframe : s.1.frame = base.frame) (hs : K s.1)
  (hi : s.1.input? target = some i) (hfree : i.source = none)
include hK hfed hframe hs hi hfree

theorem yields_bindSocket (socket : Nat) :
    Yields K (bindSocket compound inner socket target) s target (boundInput compound inner socket i) := by
  refine .current ?_
  unfold boundInput
  rw [hi]
  cases inner.inputSockets[socket]? with
  | none => exact .nothing hs hi
  | some t =>
    dsimp only
    cases houter : compound.input? t.name with
    | none => exact .lift fun value => .update (becomes_modifyInput hK hs hi (fun _ => rfl) fun _ => rfl)
    | some outer =>
      dsimp only
      cases hsource : outer.source with
      | none => exact .lift fun value => .update (becomes_modifyInput hK hs hi (fun _ => rfl) fun _ => rfl)
      | some source =>
        refine .lift fun channels => .update ?_
        have hmodified := becomes_modifyInput (f := fun i => { i with channels }) hK hs hi (fun _ => rfl) fun _ => rfl
        have hknown := hfed outer (List.mem_of_find?_eq_some houter) source hsource
        exact hmodified.trans
          (becomes_link hK (hmodified.frame.trans hframe) hmodified.records hmodified.input hfree hknown)

variable (hcopied : Copied Known inner copies)
include hcopied

theorem yields_rewire (hsource : inner.Tame source) :
    Yields K (rewire compound inner copies source target) s target (rewiredInput compound inner copies source i) := by
  obtain ⟨owner, index⟩ := source
  cases owner with
  | graph => exact yields_bindSocket hK hfed hframe hs hi hfree index
  | node old =>
    unfold rewire rewiredInput
    dsimp only
    cases hnew : copies.lookup old with
    | none => exact .nothing hs hi
    | some new => exact .update (becomes_link hK hframe hs hi hfree (hcopied old new index hnew hsource))

theorem yields_rewireReader {socket : Input} (hsocket : ∀ source, socket.source = some source → inner.Tame source) :
    Yields K (rewireReader compound inner copies socket target) s target
      (readerInput compound inner copies socket i) := by
  refine .current ?_
  rw [hi]
  refine .lift fun channels => ?_
  have hmodified := becomes_modifyInput (f := fun i => { i with channels }) hK hs hi (fun _ => rfl) fun _ => rfl
  refine .after hmodified ?_
  cases hsource : socket.source with
  | some source =>
    exact yields_rewire (s := (_, s.2)) hK hfed (hmodified.frame.trans hframe) hmodified.records hmodified.input hfree
      hcopied (hsocket source hsource)
  | none =>
    refine .lift fun value => ?_
    have hlast := becomes_modifyInput (f := fun i => { i with value, channels := none }) hK hmodified.records
      hmodified.input (fun _ => rfl) fun _ => rfl
    exact .update hlast

end

/-! ## All jobs of replacing a compound -/

variable (compound inner copies) in
def inputJobs (id : NodeId) : Nat → List Input → List Job
  | _, [] => []
  | index, i :: rest =>
    (match i.source with
      | some source => [⟨.ofNode id index, rewiredInput compound inner copies source⟩]
      | none => []) ++ inputJobs id (index + 1) rest

variable (compound inner copies) in
def copyJobs (nodes : List Node) : List Job :=
  nodes.flatMap fun n =>
    match copies.lookup n.id with
    | some id => inputJobs compound inner copies id 0 n.inputs
    | none => []

variable (compound inner copies) in
def readerJobs : List Job :=
  (compound.outputs.zip inner.outputSockets).flatMap fun (output, socket) =>
    output.readers.flatMap fun reader => [⟨reader, readerInput compound inner copies socket⟩]

variable (compound inner copies) in
/-- The jobs for all inputs that replacing a compound connects. -/
def allJobs : List Job := copyJobs compound inner copies inner.nodes ++ readerJobs compound inner copies

section
variable (hK : Records base Known K) (hfed : Fed Known compound) (hcopied : Copied Known inner copies)
include hK hfed hcopied

theorem does_rewireInputs (id : NodeId) (inputs : List Input)
    (htame : ∀ i ∈ inputs, ∀ source, i.source = some source → inner.Tame source) : ∀ index,
    (∀ k < inputs.length, ∃ i, base.input? (.ofNode id (index + k)) = some i) →
      Does K base (rewireInputs compound inner copies id index inputs)
        (inputJobs compound inner copies id index inputs) := by
  induction inputs with
  | nil => exact fun _ _ => .nothing
  | cons i rest ih =>
    intro index htargets
    rw [rewireInputs, inputJobs]
    have hrest := ih (fun j hj => htame j (List.mem_cons_of_mem i hj)) (index + 1) fun k hk => by
      rw [Nat.add_right_comm]
      exact htargets (k + 1) (by simpa using hk)
    cases hsource : i.source with
    | none => exact hrest
    | some source =>
      refine .bind (.of_yields (fun s hframe hmissing => ?_) fun s i hframe hs hi hfree => ?_) hrest
      · obtain ⟨i, hi⟩ := htargets 0 (Nat.succ_pos _)
        obtain ⟨j, hj, -⟩ := input_of_frame hframe hi
        rw [Nat.add_zero, hmissing] at hj
        cases hj
      · exact yields_rewire hK hfed hframe hs hi hfree hcopied (htame _ List.mem_cons_self source hsource)

theorem does_rewireAll (hinner : inner.Loose) (htargets : ∀ n ∈ inner.nodes, ∀ id, copies.lookup n.id = some id →
      ∀ k < n.inputs.length, ∃ i, base.input? (.ofNode id k) = some i) :
    Does K base (rewireAll compound inner copies) (allJobs compound inner copies) := by
  refine .bind (.forM _ fun n hn => ?_) (.forM _ fun p hp => .forM _ fun target _ => .of_yields ?_ ?_)
  · cases hcopy : copies.lookup n.id with
    | none => exact .nothing
    | some id =>
      refine does_rewireInputs hK hfed hcopied id n.inputs (fun _ hi _ => hinner.tame_of_node hn hi) 0 fun k hk => ?_
      rw [Nat.zero_add]
      exact htargets n hn id hcopy k hk
  · intro s _ hmissing
    rw [rewireReader, current_bind, hmissing]
    rfl
  · intro s i hframe hs hi hfree
    exact yields_rewireReader hK hfed hframe hs hi hfree hcopied
      fun _ => hinner.tame_of_socket (List.of_mem_zip hp).2

end

theorem mem_inputJobs {job : Job} {id : NodeId} {inputs : List Input} :
    ∀ {index}, job ∈ inputJobs compound inner copies id index inputs ↔ ∃ k i source, inputs[k]? = some i ∧
      i.source = some source ∧ job = ⟨.ofNode id (index + k), rewiredInput compound inner copies source⟩ := by
  induction inputs with
  | nil => simp [inputJobs]
  | cons i rest ih =>
    intro index
    rw [inputJobs, List.mem_append, ih]
    constructor
    · rintro (hjob | ⟨k, j, source, hk, hsource, rfl⟩)
      · cases hsource : i.source with
        | none => simp [hsource] at hjob
        | some source =>
          rw [hsource] at hjob
          exact ⟨0, i, source, rfl, hsource, List.mem_singleton.mp hjob⟩
      · exact ⟨k + 1, j, source, hk, hsource, by rw [Nat.add_right_comm]; rfl⟩
    · rintro ⟨k, j, source, hk, hsource, rfl⟩
      cases k with
      | zero =>
        obtain rfl := Option.some.inj hk
        rw [hsource]
        exact .inl (List.mem_singleton_self _)
      | succ k => exact .inr ⟨k, j, source, hk, hsource, by rw [Nat.add_right_comm]; rfl⟩

theorem nodup_inputJobs (id : NodeId) (inputs : List Input) :
    ∀ index, ((inputJobs compound inner copies id index inputs).map Job.target).Nodup := by
  induction inputs with
  | nil => exact fun _ => List.nodup_nil
  | cons i rest ih =>
    intro index
    rw [inputJobs]
    cases i.source with
    | none => exact ih (index + 1)
    | some source =>
      simp only [List.cons_append, List.nil_append, List.map_cons, List.nodup_cons]
      refine ⟨fun hmem => ?_, ih (index + 1)⟩
      obtain ⟨job, hjob, htarget⟩ := List.mem_map.mp hmem
      obtain ⟨k, _, _, -, -, rfl⟩ := mem_inputJobs.mp hjob
      simp only [ PinRef.ofNode, PinRef.mk.injEq, true_and] at htarget
      omega

theorem mem_copyJobs {job : Job} {nodes : List Node} : job ∈ copyJobs compound inner copies nodes ↔
    ∃ n ∈ nodes, ∃ id k i source, copies.lookup n.id = some id ∧ n.inputs[k]? = some i ∧ i.source = some source ∧
      job = ⟨.ofNode id k, rewiredInput compound inner copies source⟩ := by
  rw [copyJobs, List.mem_flatMap]
  refine exists_congr fun n => and_congr_right fun _ => ?_
  cases copies.lookup n.id with
  | none => simp
  | some id => simp [mem_inputJobs]

theorem mem_readerJobs {job : Job} : job ∈ readerJobs compound inner copies ↔ ∃ (k : Nat) (output : Output)
    (socket : Input), compound.outputs[k]? = some output ∧ inner.outputSockets[k]? = some socket ∧
      job.target ∈ output.readers ∧
      job.change = readerInput compound inner copies socket := by
  simp only [readerJobs, List.mem_flatMap, List.mem_singleton]
  constructor
  · rintro ⟨⟨output, socket⟩, hmem, reader, hreader, rfl⟩
    obtain ⟨k, hk⟩ := List.mem_iff_getElem?.mp hmem
    obtain ⟨houtput, hsocket⟩ := List.getElem?_zip_eq_some.mp hk
    exact ⟨k, output, socket, houtput, hsocket, hreader, rfl⟩
  · rintro ⟨k, output, socket, houtput, hsocket, hreader, hchange⟩
    refine ⟨(output, socket), ?_, job.target, hreader, by rw [← hchange]⟩
    exact List.mem_of_getElem? (List.getElem?_zip_eq_some.mpr ⟨houtput, hsocket⟩)

theorem nodup_copyJobs {nodes : List Node} (hnodes : (nodes.map Node.id).Nodup)
    (hcopies : ∀ {a b id}, copies.lookup a = some id → copies.lookup b = some id → a = b) :
    ((copyJobs compound inner copies nodes).map Job.target).Nodup := by
  rw [copyJobs, List.map_flatMap, List.nodup_flatMap]
  constructor
  · intro n _
    cases copies.lookup n.id with
    | none => exact List.nodup_nil
    | some id => exact nodup_inputJobs id n.inputs 0
  · refine (List.pairwise_map.mp hnodes).imp fun {a b} hne => ?_
    simp only [Function.onFun]
    cases ha : copies.lookup a.id with
    | none => exact List.disjoint_nil_left _
    | some x =>
      cases hb : copies.lookup b.id with
      | none => exact List.disjoint_nil_right _
      | some y =>
        intro target hx hy
        obtain ⟨job, hjob, rfl⟩ := List.mem_map.mp hx
        obtain ⟨job', hjob', htarget⟩ := List.mem_map.mp hy
        obtain ⟨k, _, _, -, -, rfl⟩ := mem_inputJobs.mp hjob
        obtain ⟨k', _, _, -, -, rfl⟩ := mem_inputJobs.mp hjob'
        simp only [PinRef.ofNode, PinRef.mk.injEq, Owner.node.injEq] at htarget
        exact hne (hcopies ha (htarget.1 ▸ hb))

theorem nodup_readerJobs (hg : g.Listed) (hcompound : g.node? compound.id = some compound) :
    ((readerJobs compound inner copies).map Job.target).Nodup := by
  have houtput : ∀ {k o}, compound.outputs[k]? = some o → g.output? (.ofNode compound.id k) = some o := by
    intro k o ho
    simp [output?, PinRef.ofNode, hcompound, ho]
  have htargets : (readerJobs compound inner copies).map Job.target =
      (compound.outputs.zip inner.outputSockets).flatMap fun p => p.1.readers := by
    simp [readerJobs, List.map_flatMap]
  rw [htargets, List.nodup_flatMap]
  constructor
  · rintro ⟨o, s⟩ hmem
    obtain ⟨k, hk⟩ := List.mem_iff_getElem?.mp hmem
    exact hg.once (houtput (List.getElem?_zip_eq_some.mp hk).1)
  · rw [List.pairwise_iff_getElem]
    intro k k' hk hk' hlt target htarget htarget'
    have ho := houtput (List.getElem?_zip_eq_some.mp (List.getElem?_eq_getElem hk)).1
    have ho' := houtput (List.getElem?_zip_eq_some.mp (List.getElem?_eq_getElem hk')).1
    obtain ⟨i, hi, hsource⟩ := hg.reads ho htarget
    obtain ⟨i', hi', hsource'⟩ := hg.reads ho' htarget'
    obtain rfl := Option.some.inj (hi.symm.trans hi')
    rw [hsource'] at hsource
    simp only [PinRef.ofNode, Option.some.injEq, PinRef.mk.injEq, true_and] at hsource
    omega

/-! ## Replacing a compound -/

/-- What becomes of an input outside of the compound. -/
def outerInput (compound : Node) (inner : Graph) (copies : List (NodeId × NodeId)) (i : Input) : Except Error Input :=
  match i.source with
  | some ⟨.node id, index⟩ =>
    if id = compound.id then
      match inner.outputSockets[index]? with
      | some socket => readerInput compound inner copies socket { i with source := none }
      | none => .ok { i with source := none }
    else .ok i
  | _ => .ok i

/-- What becomes of an input of an inner node at its copy. -/
def innerInput (compound : Node) (inner : Graph) (copies : List (NodeId × NodeId)) (i : Input) : Except Error Input :=
  match i.source with
  | some source => rewiredInput compound inner copies source { i with source := none }
  | none => .ok i

/-- What becomes of an input of a node other than the compound, by the readers that the compound lists. -/
inductive Outer (compound : Node) (inner : Graph) (copies : List (NodeId × NodeId)) (q : PinRef) (i : Input) :
    Input → Prop
  | kept (hother : ∀ output ∈ compound.outputs, q ∉ output.readers) : Outer compound inner copies q i i
  | released {k : Nat} {output : Output} (houtput : compound.outputs[k]? = some output) (hreader : q ∈ output.readers)
      (hsocket : inner.outputSockets[k]? = none) : Outer compound inner copies q i { i with source := none }
  | reader {k : Nat} {output : Output} {socket j : Input} (houtput : compound.outputs[k]? = some output)
      (hreader : q ∈ output.readers) (hsocket : inner.outputSockets[k]? = some socket)
      (hj : readerInput compound inner copies socket { i with source := none } = .ok j) :
      Outer compound inner copies q i j

theorem ne_self_of_source (hself : compound.id ∉ compound.sources) {i : Input} (hi : i ∈ compound.inputs)
    (hsource : i.source = some source) : source.owner ≠ .node compound.id := by
  obtain ⟨owner, index⟩ := source
  rintro rfl
  exact hself (mem_sources_iff.mpr ⟨i, hi, index, hsource⟩)

theorem Copying.extends {nodes : List Node} {pairs : List (Node × Node)} (hcopying : Copying nodes pairs s s')
    (hs : s.1.Owned s.2) : s'.1.Extends s.1 := by
  have hnodup : ((pairs.map Prod.snd).map Node.id).Nodup := by
    rw [List.map_map]
    exact hcopying.nodup
  rw [hcopying.graph]
  refine extends_addNodes _ hs.distinct hnodup fun n hn => ?_
  obtain ⟨p, hp, rfl⟩ := List.mem_map.mp hn
  refine ⟨fun hmem => hcopying.fresh p hp (hs.issued _ hmem), ?_⟩
  obtain ⟨id, name, heq⟩ := hcopying.detached p hp
  rw [heq]
  simp [Node.Unconnected, Node.detached]

theorem Copying.node? {nodes : List Node} {pairs : List (Node × Node)} (hcopying : Copying nodes pairs s s')
    (hs : s.1.Owned s.2) {p : Node × Node} (hp : p ∈ pairs) : s'.1.node? p.2.id = some p.2 := by
  refine (hcopying.extends hs).distinct.node?_of_mem ?_
  rw [hcopying.graph]
  exact List.mem_append_right _ (List.mem_map_of_mem hp)

theorem Copying.mem {nodes : List Node} {pairs : List (Node × Node)} (hcopying : Copying nodes pairs s s')
    {p : Node × Node} (hp : p ∈ pairs) : p.1 ∈ nodes := by
  rw [← hcopying.originals]
  exact List.mem_map_of_mem hp

section
variable {pairs : List (Node × Node)} (hcopying : Copying inner.nodes pairs s s') (hs : s.1.Owned s.2)
  (hinner : inner.Distinct)
include hcopying hs hinner

theorem Copying.input? {p : Node × Node} (hp : p ∈ pairs) (k : Nat) : s'.1.input? (.ofNode p.2.id k) =
    (inner.input? (.ofNode p.1.id k)).map fun i => { i with source := none } := by
  obtain ⟨id, name, heq⟩ := hcopying.detached p hp
  have hinputs : p.2.inputs = p.1.inputs.map fun i => { i with source := none } := by rw [heq]; rfl
  simp [Graph.input?, PinRef.ofNode, hcopying.node? hs hp, hinner.node?_of_mem (hcopying.mem hp), hinputs]

theorem Copying.output? {p : Node × Node} (hp : p ∈ pairs) (k : Nat) : s'.1.output? (.ofNode p.2.id k) =
    (inner.output? (.ofNode p.1.id k)).map fun o => { o with readers := [] } := by
  obtain ⟨id, name, heq⟩ := hcopying.detached p hp
  have houtputs : p.2.outputs = p.1.outputs.map fun o => { o with readers := [] } := by rw [heq]; rfl
  simp [Graph.output?, PinRef.ofNode, hcopying.node? hs hp, hinner.node?_of_mem (hcopying.mem hp), houtputs]

theorem Copying.copied : Copied (fun p => ∃ o, s'.1.output? p = some o) inner (copyIds pairs) := by
  intro old new index hlookup htame
  obtain ⟨p, hp, rfl, rfl⟩ := lookup_copyIds hlookup
  have hknown : ∃ o, inner.output? (.ofNode p.1.id index) = some o := by
    rcases htame with hknown | ⟨id, hid, howner⟩
    · exact hknown
    · exact absurd (Owner.node.inj howner ▸ mem_ids_of_mem (hcopying.mem hp)) hid
  obtain ⟨o, ho⟩ := hknown
  exact ⟨_, by rw [hcopying.output? hs hinner hp, ho]; rfl⟩

end

theorem mem_ids_of_input? (hi : g.input? q = some i) (howner : q.owner = .node id) : id ∈ g.ids := by
  simp only [input?, howner] at hi
  obtain ⟨n, hn, -⟩ := Option.bind_eq_some_iff.mp hi
  exact mem_ids_of_node? hn

theorem injective_copyIds {pairs : List (Node × Node)} (hnodup : (pairs.map fun p => p.2.id).Nodup) {a b id : NodeId}
    (ha : (copyIds pairs).lookup a = some id) (hb : (copyIds pairs).lookup b = some id) : a = b := by
  obtain ⟨p, hp, rfl, rfl⟩ := lookup_copyIds ha
  obtain ⟨q, hq, rfl, heq⟩ := lookup_copyIds hb
  rw [List.inj_on_of_nodup_map hnodup hq hp heq]

theorem Copying.node_cases {nodes : List Node} {pairs : List (Node × Node)} (hcopying : Copying nodes pairs s s')
    (hs : s.1.Owned s.2) (hn : s'.1.node? id = some n) : s.1.node? id = some n ∨ ∃ p ∈ pairs, p.2 = n := by
  have hmem := mem_of_node? hn
  rw [hcopying.graph] at hmem
  rcases List.mem_append.mp hmem with hmem | hmem
  · exact .inl (id_of_node? hn ▸ hs.distinct.node?_of_mem hmem)
  · exact .inr (List.mem_map.mp hmem)

/-- The compound is gone and the copies of the inner nodes are there, but nothing is connected to them yet. -/
structure Prepared (s : Graph × IdSupply) (compound : Node) (inner : Graph) (pairs : List (Node × Node))
    (s₁ : Graph × IdSupply) : Prop where
  owned : s.1.Owned s.2
  listed : s.1.Listed
  found : s.1.node? compound.id = some compound
  distinct : inner.Distinct
  copying : Copying inner.nodes pairs (s.1.removeNode compound.id, s.2) s₁

namespace Prepared

variable {s₁ : Graph × IdSupply} {pairs : List (Node × Node)} (hp : Prepared s compound inner pairs s₁)
include hp

theorem extends_removeNode : s₁.1.Extends (s.1.removeNode compound.id) :=
  hp.copying.extends (hp.owned.removeNode compound.id)

theorem input_copy {p : Node × Node} (hmem : p ∈ pairs) (k : Nat) : s₁.1.input? (.ofNode p.2.id k) =
    (inner.input? (.ofNode p.1.id k)).map fun i => { i with source := none } :=
  hp.copying.input? (hp.owned.removeNode compound.id) hp.distinct hmem k

theorem output_copy {p : Node × Node} (hmem : p ∈ pairs) (k : Nat) : s₁.1.output? (.ofNode p.2.id k) =
    (inner.output? (.ofNode p.1.id k)).map fun o => { o with readers := [] } :=
  hp.copying.output? (hp.owned.removeNode compound.id) hp.distinct hmem k

theorem not_mem_ids {p : Node × Node} (hmem : p ∈ pairs) : p.2.id ∉ s.1.ids :=
  fun hid => hp.copying.fresh p hmem (hp.owned.issued _ hid)

theorem lookup {p : Node × Node} (hmem : p ∈ pairs) : (copyIds pairs).lookup p.1.id = some p.2.id := by
  refine lookup_of_mem_pairs ?_ hmem
  have hdistinct := hp.distinct
  rwa [Distinct, ids, ← hp.copying.originals, List.map_map] at hdistinct

theorem output_of_compound {k : Nat} {output : Output} (houtput : compound.outputs[k]? = some output) :
    s.1.output? (.ofNode compound.id k) = some output := by
  simp [output?, PinRef.ofNode, hp.found, houtput]

theorem exists_input (hn : n ∈ inner.nodes) (hlookup : (copyIds pairs).lookup n.id = some id) {k : Nat}
    (hk : k < n.inputs.length) : ∃ i, s₁.1.input? (.ofNode id k) = some i := by
  obtain ⟨q, hq, hid, rfl⟩ := lookup_copyIds hlookup
  rw [hp.input_copy hq, hid]
  simp [input?, PinRef.ofNode, hp.distinct.node?_of_mem hn, List.getElem?_eq_getElem hk]

theorem input_cases (hi : s₁.1.input? q = some i) :
    (∃ j, s.1.input? q = some j ∧
      i = if q ∈ compound.outputs.flatMap Output.readers then { j with source := none } else j) ∨
    ∃ p ∈ pairs, ∃ k j, q = .ofNode p.2.id k ∧ inner.input? (.ofNode p.1.id k) = some j ∧
      i = { j with source := none } := by
  obtain ⟨owner, k⟩ := q
  cases owner with
  | graph =>
    rw [hp.copying.graph] at hi
    have hi : (s.1.removeNode compound.id).input? (.socket k) = some i := hi
    exact .inl (input_of_removeNode hp.found hi).2
  | node id =>
    obtain ⟨n, hn, hk⟩ := Option.bind_eq_some_iff.mp hi
    rcases hp.copying.node_cases (hp.owned.removeNode compound.id) hn with hold | ⟨p, hmem, rfl⟩
    · have hold : (s.1.removeNode compound.id).input? (.ofNode id k) = some i :=
        Option.bind_eq_some_iff.mpr ⟨n, hold, hk⟩
      exact .inl (input_of_removeNode hp.found hold).2
    · obtain rfl := id_of_node? hn
      obtain ⟨j, hj, rfl⟩ := Option.map_eq_some_iff.mp ((hp.input_copy hmem k).symm.trans hi)
      exact .inr ⟨p, hmem, k, j, rfl, hj, rfl⟩

theorem nodup_jobs : ((allJobs compound inner (copyIds pairs)).map Job.target).Nodup := by
  rw [allJobs, List.map_append, List.nodup_append]
  refine ⟨nodup_copyJobs hp.distinct (injective_copyIds hp.copying.nodup), nodup_readerJobs hp.listed hp.found, ?_⟩
  rintro target hcopy _ hreader rfl
  obtain ⟨job, hjob, rfl⟩ := List.mem_map.mp hcopy
  obtain ⟨job', hjob', htarget⟩ := List.mem_map.mp hreader
  obtain ⟨n, -, id, k, _, _, hlookup, -, -, rfl⟩ := mem_copyJobs.mp hjob
  obtain ⟨l, output, socket, houtput, -, hmem, -⟩ := mem_readerJobs.mp hjob'
  obtain ⟨i, hi, -⟩ := hp.listed.reads (hp.output_of_compound houtput) hmem
  obtain ⟨p, hp', -, rfl⟩ := lookup_copyIds hlookup
  rw [htarget] at hi
  exact hp.not_mem_ids hp' (mem_ids_of_input? hi rfl)

theorem job_cases {job : Job} (hjob : job ∈ allJobs compound inner (copyIds pairs))
    (hi : s₁.1.input? job.target = some i) :
    (∃ p ∈ pairs, ∃ k j source, job.target = .ofNode p.2.id k ∧ inner.input? (.ofNode p.1.id k) = some j ∧
      j.source = some source ∧ i = { j with source := none } ∧
      job.change = rewiredInput compound inner (copyIds pairs) source) ∨
    ∃ k output socket j, compound.outputs[k]? = some output ∧ job.target ∈ output.readers ∧
      inner.outputSockets[k]? = some socket ∧ s.1.input? job.target = some j ∧
      j.source = some (.ofNode compound.id k) ∧ i = { j with source := none } ∧
      job.change = readerInput compound inner (copyIds pairs) socket := by
  rcases List.mem_append.mp hjob with hjob | hjob
  · obtain ⟨n, hn, id, k, j, source, hlookup, hj, hsource, rfl⟩ := mem_copyJobs.mp hjob
    obtain ⟨p, hmem, hid, rfl⟩ := lookup_copyIds hlookup
    have hinput : inner.input? (.ofNode p.1.id k) = some j := by
      simp [input?, PinRef.ofNode, hid, hp.distinct.node?_of_mem hn, hj]
    rw [hp.input_copy hmem, hinput] at hi
    exact .inl ⟨p, hmem, k, j, source, rfl, hinput, hsource, (Option.some.inj hi).symm, rfl⟩
  · obtain ⟨k, output, socket, houtput, hsocket, hreader, hchange⟩ := mem_readerJobs.mp hjob
    obtain ⟨j, hj, hsource⟩ := hp.listed.reads (hp.output_of_compound houtput) hreader
    refine .inr ⟨k, output, socket, j, houtput, hreader, hsocket, hj, hsource, ?_, hchange⟩
    rcases hp.input_cases hi with ⟨j', hj', rfl⟩ | ⟨p, hmem, l, _, htarget, -, -⟩
    · obtain rfl := Option.some.inj (hj.symm.trans hj')
      rw [if_pos (List.mem_flatMap.mpr ⟨output, List.mem_of_getElem? houtput, hreader⟩)]
    · rw [htarget] at hj
      exact absurd (mem_ids_of_input? hj rfl) (hp.not_mem_ids hmem)

theorem ready (hstart : K s₁.1) : Waiting K s₁.1 (allJobs compound inner (copyIds pairs)) s₁.1 := by
  refine ⟨rfl, hstart, hp.nodup_jobs, fun job hjob i hi => ?_⟩
  rcases hp.job_cases hjob hi with ⟨_, -, _, _, _, -, -, -, rfl, -⟩ | ⟨_, _, _, _, -, -, -, -, -, rfl, -⟩
  · rfl
  · rfl

theorem input_of_kept (hi : s₁.1.input? q = some i) (hq : q ∉ (allJobs compound inner (copyIds pairs)).map Job.target) :
    (∃ j, s.1.input? q = some j ∧ Outer compound inner (copyIds pairs) q j i) ∨
      ∃ p ∈ pairs, ∃ k j, q = .ofNode p.2.id k ∧ inner.input? (.ofNode p.1.id k) = some j ∧
        innerInput compound inner (copyIds pairs) j = .ok i := by
  rw [allJobs, List.map_append, List.mem_append, not_or] at hq
  rcases hp.input_cases hi with ⟨j, hj, rfl⟩ | ⟨p, hmem, k, j, rfl, hj, rfl⟩
  · refine .inl ⟨j, hj, ?_⟩
    split
    · rename_i hreader
      obtain ⟨output, houtput, hreader⟩ := List.mem_flatMap.mp hreader
      obtain ⟨k, hk⟩ := List.mem_iff_getElem?.mp houtput
      cases hsocket : inner.outputSockets[k]? with
      | none => exact .released hk hreader hsocket
      | some socket =>
        exact absurd (List.mem_map.mpr ⟨⟨q, _⟩, mem_readerJobs.mpr ⟨k, output, socket, hk, hsocket, hreader, rfl⟩, rfl⟩)
          hq.2
    · rename_i hother
      exact .kept fun output houtput hreader => hother (List.mem_flatMap.mpr ⟨output, houtput, hreader⟩)
  · refine .inr ⟨p, hmem, k, j, rfl, hj, ?_⟩
    have hp₁ := hp.copying.mem hmem
    cases hsource : j.source with
    | none =>
      simp only [innerInput, hsource]
      rw [← hsource]
    | some source =>
      have hj : p.1.inputs[k]? = some j := by
        simpa [input?, PinRef.ofNode, hp.distinct.node?_of_mem hp₁] using hj
      exact absurd (List.mem_map.mpr ⟨_, mem_copyJobs.mpr
        ⟨p.1, hp₁, p.2.id, k, j, source, hp.lookup hmem, hj, hsource, rfl⟩, rfl⟩) hq.1

/-- **Every input behind the jobs** is what they make of one that was there before, or of one of an inner node. -/
theorem input_of_done (hdone : Done K s₁.1 h (allJobs compound inner (copyIds pairs))) (hi : h.input? q = some i) :
    (∃ j, s.1.input? q = some j ∧ Outer compound inner (copyIds pairs) q j i) ∨
      ∃ p ∈ pairs, ∃ k j, q = .ofNode p.2.id k ∧ inner.input? (.ofNode p.1.id k) = some j ∧
        innerInput compound inner (copyIds pairs) j = .ok i := by
  by_cases hq : q ∈ (allJobs compound inner (copyIds pairs)).map Job.target
  · obtain ⟨job, hjob, rfl⟩ := List.mem_map.mp hq
    obtain ⟨i₁, hi₁, -⟩ := input_of_frame hdone.frame.symm hi
    obtain ⟨i', hchange, hi'⟩ := hdone.changed job hjob i₁ hi₁
    obtain rfl := Option.some.inj (hi.symm.trans hi')
    rcases hp.job_cases hjob hi₁ with ⟨p, hmem, k, j, source, htarget, hj, hsource, rfl, heq⟩ |
      ⟨k, output, socket, j, houtput, hreader, hsocket, hj, -, rfl, heq⟩
    · refine .inr ⟨p, hmem, k, j, htarget, hj, ?_⟩
      simp only [innerInput, hsource]
      exact heq ▸ hchange
    · exact .inl ⟨j, hj, .reader houtput hreader hsocket (heq ▸ hchange)⟩
  · exact hp.input_of_kept ((hdone.kept q hq).symm.trans hi) hq

end Prepared

/-- The compound has been replaced by copies of its inner nodes, and every input is what the replacement makes of it. -/
structure Inlined (g : Graph) (compound : Node) (inner : Graph) (pairs : List (Node × Node)) (h : Graph) : Prop where
  paired : h.Paired
  originals : pairs.map Prod.fst = inner.nodes
  detached : ∀ p ∈ pairs, ∃ id name, p.2 = p.1.detached id name
  nodup : (pairs.map fun p => p.2.id).Nodup
  fresh : ∀ p ∈ pairs, p.2.id ∉ g.ids
  frame : h.frame = ((g.dropNode compound.id).addNodes (pairs.map Prod.snd)).frame
  outside : ∀ {q i}, q.owner ≠ .node compound.id → g.input? q = some i →
    ∃ j, outerInput compound inner (copyIds pairs) i = .ok j ∧ h.input? q = some j
  inside : ∀ {p k i}, p ∈ pairs → p.1.inputs[k]? = some i →
    ∃ j, innerInput compound inner (copyIds pairs) i = .ok j ∧ h.input? (.ofNode p.2.id k) = some j

theorem reader_iff (hg : g.Paired) (hcompound : g.node? compound.id = some compound) {index : Nat} {output : Output}
    (houtput : compound.outputs[index]? = some output) (hi : g.input? target = some i) :
    target ∈ output.readers ↔ i.source = some (.ofNode compound.id index) := by
  have ho : g.output? (.ofNode compound.id index) = some output := by simp [output?, PinRef.ofNode, hcompound, houtput]
  exact (hg.agree ho hi).symm

theorem Outer.eq_ok {copies : List (NodeId × NodeId)} {j : Input} (hg : g.Paired)
    (hcompound : g.node? compound.id = some compound) (hi : g.input? q = some i)
    (hj : Outer compound inner copies q i j) : outerInput compound inner copies i = .ok j := by
  cases hj with
  | kept hother =>
    rw [outerInput]
    split
    · rename_i id index hsource
      rw [if_neg]
      rintro rfl
      obtain ⟨output, houtput⟩ := hg.source_known hi hsource
      simp only [output?, hcompound, Option.bind_some] at houtput
      exact hother output (List.mem_of_getElem? houtput) ((reader_iff hg hcompound houtput hi).mpr hsource)
    · rfl
  | released houtput hreader hsocket =>
    have hsource := (reader_iff hg hcompound houtput hi).mp hreader
    simp only [outerInput, hsource, PinRef.ofNode, if_true, hsocket]
  | reader houtput hreader hsocket hj =>
    have hsource := (reader_iff hg hcompound houtput hi).mp hreader
    simp only [outerInput, hsource, PinRef.ofNode, if_true, hsocket]
    exact hj

section
variable {s₁ : Graph × IdSupply} {pairs : List (Node × Node)} (hp : Prepared s compound inner pairs s₁)
  (hg : s.1.Paired)
include hp hg

theorem Prepared.paired : s₁.1.Paired := (hg.removeNode compound.id).extend hp.extends_removeNode

theorem Prepared.fed (hself : compound.id ∉ compound.sources) :
    Fed (fun p => ∃ o, s₁.1.output? p = some o) compound := by
  intro i hi source hsource
  obtain ⟨o, ho⟩ := hg.source_of_node (mem_of_node? hp.found) hi hsource
  have ho' : (s.1.removeNode compound.id).output? source =
      some { o with readers := o.readers.filter fun r => r.owner != .node compound.id } := by
    rw [hg.output?_removeNode, if_neg (ne_self_of_source hself hi hsource), ho]
    rfl
  exact ⟨_, hp.extends_removeNode.output_kept ho'⟩

theorem Prepared.inlined (hdone : Done Paired s₁.1 h (allJobs compound inner (copyIds pairs))) :
    Inlined s.1 compound inner pairs h where
  paired := hdone.records
  originals := hp.copying.originals
  detached := hp.copying.detached
  nodup := hp.copying.nodup
  fresh _ := hp.not_mem_ids
  frame := by rw [hdone.frame, hp.copying.graph, frame_addNodes, frame_addNodes, frame_removeNode]
  outside {q i} howner hi := by
    have hleft : (s.1.removeNode compound.id).input? q = some (cutFrom compound.id i) := by
      rw [hg.input?_removeNode, if_neg howner, hi]
      rfl
    obtain ⟨j, hj, -⟩ := input_of_frame hdone.frame (hp.extends_removeNode.input_kept hleft)
    refine ⟨j, ?_, hj⟩
    rcases hp.input_of_done hdone hj with ⟨i', hi', houter⟩ | ⟨p, hmem, k, _, rfl, -, -⟩
    · obtain rfl := Option.some.inj (hi.symm.trans hi')
      exact houter.eq_ok hg hp.found hi
    · exact absurd (mem_ids_of_input? hi rfl) (hp.not_mem_ids hmem)
  inside {p k i} hmem hi := by
    have hinput : inner.input? (.ofNode p.1.id k) = some i := by
      simp [input?, PinRef.ofNode, hp.distinct.node?_of_mem (hp.copying.mem hmem), hi]
    have hcopy := hp.input_copy hmem k
    rw [hinput] at hcopy
    obtain ⟨j, hj, -⟩ := input_of_frame hdone.frame hcopy
    refine ⟨j, ?_, hj⟩
    rcases hp.input_of_done hdone hj with ⟨i', hi', -⟩ | ⟨p', hmem', k', i', heq, hi', hchange⟩
    · exact absurd (mem_ids_of_input? hi' rfl) (hp.not_mem_ids hmem)
    · simp only [PinRef.ofNode, PinRef.mk.injEq, Owner.node.injEq] at heq
      obtain ⟨hid, rfl⟩ := heq
      obtain rfl := List.inj_on_of_nodup_map hp.copying.nodup hmem hmem' hid
      obtain rfl := Option.some.inj (hinput.symm.trans hi')
      exact hchange

end

theorem prepared_of_inlineCompound {a : Unit} (hpick : Function.Injective s.2.pick) (hs : s.1.Owned s.2)
    (hlisted : s.1.Listed) (hcompound : s.1.node? compound.id = some compound) (hinner : inner.Distinct)
    (h : inlineCompound compound inner s = .ok a s') :
    ∃ pairs s₁, Prepared s compound inner pairs s₁ ∧ rewireAll compound inner (copyIds pairs) s₁ = .ok a s' := by
  obtain ⟨pairs, s₁, hcopying, hrest⟩ := copying_of_inlineCompound hpick h
  exact ⟨pairs, s₁, ⟨hs, hlisted, hcompound, hinner, hcopying⟩, hrest⟩

theorem done_of_inlineCompound {a : Unit} (hpick : Function.Injective s.2.pick) (hs : s.1.Owned s.2)
    (hlisted : s.1.Listed) (hcompound : s.1.node? compound.id = some compound) (hinner : inner.Loose)
    (h : inlineCompound compound inner s = .ok a s') :
    ∃ pairs s₁, Prepared s compound inner pairs s₁ ∧
      Done Listed s₁.1 s'.1 (allJobs compound inner (copyIds pairs)) := by
  obtain ⟨pairs, s₁, hp, hrest⟩ := prepared_of_inlineCompound hpick hs hlisted hcompound hinner.distinct h
  have hdoes : Does Listed s₁.1 (rewireAll compound inner (copyIds pairs)) _ :=
    does_rewireAll (records_listed s₁.1) (fun _ _ _ _ => trivial) (fun _ _ _ _ _ => trivial) hinner
      fun _ hn _ hlookup _ => hp.exists_input hn hlookup
  have hready := hp.ready ((hlisted.removeNode compound.id).extend hp.extends_removeNode)
  exact ⟨pairs, s₁, hp, (hdoes.performs s₁ a s' hready hrest).2⟩

theorem Prepared.does {s₁ : Graph × IdSupply} {pairs : List (Node × Node)} (hp : Prepared s compound inner pairs s₁)
    (hg : s.1.Paired) (hinner : inner.Loose) (hself : compound.id ∉ compound.sources) :
    Does Paired s₁.1 (rewireAll compound inner (copyIds pairs)) (allJobs compound inner (copyIds pairs)) :=
  does_rewireAll (records_paired s₁.1) (hp.fed hg hself)
    (hp.copying.copied (hp.owned.removeNode compound.id) hp.distinct) hinner
    fun _ hn _ hlookup _ => hp.exists_input hn hlookup

/-- **Replacing a compound** puts copies of its inner nodes in its place, under new identities, and makes of each input
what `outerInput` and `innerInput` say. -/
theorem inlined_of_inlineCompound {a : Unit} (hpick : Function.Injective s.2.pick) (hg : s.1.Paired)
    (hissued : ∀ id ∈ s.1.ids, s.2.Issued id) (hinner : inner.Loose)
    (hcompound : s.1.node? compound.id = some compound) (hself : compound.id ∉ compound.sources)
    (h : inlineCompound compound inner s = .ok a s') :
    ∃ pairs, Inlined s.1 compound inner pairs s'.1 ∧ s.2.Later s'.2 ∧
      ∀ p ∈ pairs, ¬ s.2.Issued p.2.id ∧ s'.2.Issued p.2.id := by
  obtain ⟨pairs, s₁, hp, hrest⟩ := prepared_of_inlineCompound hpick ⟨hg.distinct, hissued⟩ hg.listed hcompound
    hinner.distinct h
  obtain ⟨hids, hdone⟩ := (hp.does hg hinner hself).performs s₁ a s' (hp.ready (hp.paired hg)) hrest
  refine ⟨pairs, hp.inlined hg hdone, hids ▸ hp.copying.later, fun p hmem => ?_⟩
  exact ⟨hp.copying.fresh p hmem, hids ▸ hp.copying.issued p hmem⟩

end

end Rewiring
end ShadeGraph.Graph

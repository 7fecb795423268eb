import ShadeGraph.Proofs.Ron.Tree
import ShadeGraph.Ron.Coding

/-!
# Reading written documents and options

Every document reads back from its text, and so do options whose numbers have 64 bits. The value of each record is a
plain tree of a known depth, and each field of it is found under its name.
-/

namespace ShadeGraph.Ron

section

variable {α : Type} [Coded α]

/-- That something is written as a plain value of a bounded depth, from which it is read back. -/
structure ReadsBack (bound : Nat) (a : α) : Prop where
  plain : (encode a).Plain
  depth_le : (encode a).depth ≤ bound
  decode : decode? {} (encode a) = some a

/-- That a field has a word as its name and a plain value of a bounded depth. -/
structure Field.Fits (bound : Nat) (f : Field) : Prop where
  word : isWord f.name = true
  plain : f.value.Plain
  depth_le : f.value.depth ≤ bound

theorem Field.Fits.cons {bound : Nat} {f : Field} {fields : List Field} (hf : f.Fits bound)
    (h : ∀ g ∈ fields, g.Fits bound) : ∀ g ∈ f :: fields, g.Fits bound :=
  List.forall_mem_cons.2 ⟨hf, h⟩

namespace ReadsBack

variable {b bound : Nat} {a : α}

theorem fits (h : ReadsBack b a) {name : String} (hfit : isWord name = true ∧ b ≤ bound) :
    (field name a).Fits bound :=
  ⟨hfit.1, h.plain, h.depth_le.trans hfit.2⟩

theorem required (h : ReadsBack b a) {fields : List Field} {name : String} (hvalues : valuesOf fields name = [encode a]) :
    required {} fields name = some a := by
  rw [Ron.required, hvalues]
  exact h.decode

theorem optional (h : ReadsBack b a) {fields : List Field} {name : String} {missing : α}
    (hvalues : valuesOf fields name = [encode a]) : optional {} fields name missing = some a := by
  rw [Ron.optional, hvalues]
  exact h.decode

end ReadsBack

/-! ## Parts of records -/

theorem readsBack_text (content : String) : ReadsBack 0 content where
  plain := by
    show Plain (.text content)
    simp [Plain]
  depth_le := Nat.le_refl 0
  decode := rfl

theorem readsBack_truth (value : Bool) : ReadsBack 0 value where
  plain := by
    show Plain (.truth value)
    simp [Plain]
  depth_le := Nat.le_refl 0
  decode := rfl

theorem readsBack_number {value : Nat} (h : value < 2 ^ 64) : ReadsBack 0 value where
  plain := by
    show Plain (.number value)
    rwa [Plain]
  depth_le := Nat.le_refl 0
  decode := rfl

theorem readsBack_option {bound : Nat} (h : ∀ a : α, ReadsBack bound a) (a : Option α) : ReadsBack (bound + 1) a := by
  cases a with
  | none => exact ⟨by show Plain .absent; simp [Plain], Nat.zero_le _, rfl⟩
  | some a =>
    refine ⟨?_, ?_, ?_⟩
    · show Plain (.present (encode a))
      rw [Plain]
      exact (h a).plain
    · show depth (.present (encode a)) ≤ bound + 1
      rw [depth]
      exact Nat.succ_le_succ (h a).depth_le
    · show (decode? {} (encode a)).map some = some (some a)
      rw [(h a).decode]
      rfl

theorem readsBack_list {bound : Nat} (h : ∀ a : α, ReadsBack bound a) (as : List α) : ReadsBack (bound + 2) as := by
  have hitems : PlainItems (as.map encode) ∧ itemsDepth (as.map encode) ≤ bound + 2 ∧
      (as.map encode).mapM (decode? {}) = some as := by
    induction as with
    | nil => simp [PlainItems, itemsDepth]
    | cons a as ih =>
      obtain ⟨hplain, hdepth, hdecode⟩ := ih
      have ha := (h a).depth_le
      rw [List.map_cons, PlainItems, itemsDepth, List.mapM_cons, (h a).decode, hdecode]
      exact ⟨⟨(h a).plain, hplain⟩, by omega, rfl⟩
  refine ⟨?_, ?_, hitems.2.2⟩
  · show Plain (.list (as.map encode))
    rw [Plain]
    exact hitems.1
  · show depth (.list (as.map encode)) ≤ bound + 2
    rw [depth]
    omega

theorem readsBack_record {a : α} {fields : List Field} (bound : Nat) (hencode : encode a = .record "" fields)
    (hfields : ∀ f ∈ fields, f.Fits bound) (hdecode : decode? {} (.record "" fields) = some a) :
    ReadsBack (bound + 2) a := by
  have hfit : PlainFields fields ∧ fieldsDepth fields ≤ bound + 2 := by
    clear hencode hdecode
    induction fields with
    | nil => simp [PlainFields, fieldsDepth]
    | cons f fields ih =>
      obtain ⟨hf, hrest⟩ := List.forall_mem_cons.1 hfields
      obtain ⟨hplain, hdepth⟩ := ih hrest
      obtain ⟨name, value⟩ := f
      have hvalue : value.depth ≤ bound := hf.depth_le
      rw [PlainFields, fieldsDepth]
      exact ⟨⟨hf.word, hf.plain, hplain⟩, by omega⟩
  refine ⟨?_, ?_, hencode ▸ hdecode⟩
  · rw [hencode, Plain]
    exact ⟨Or.inl rfl, hfit.1⟩
  · rw [hencode, depth]
    omega

end

theorem fields?_unnamed (kind : String) (fields : List Field) : fields? {} kind (.record "" fields) = some fields := by
  simp [fields?]

/-! ## Documents -/

theorem readsBack_pinDef (p : PinDef) : ReadsBack 3 p := by
  have hname := readsBack_text p.name
  have htype := readsBack_text p.typeName
  have hvalue := readsBack_option readsBack_text p.value
  have huniform := readsBack_truth p.uniform
  refine readsBack_record 1 rfl ?_ ?_
  · exact (hname.fits (by decide)).cons <| (htype.fits (by decide)).cons <| (hvalue.fits (by decide)).cons <|
      (huniform.fits (by decide)).cons <| List.forall_mem_nil _
  · simp only [decode?, fields?_unnamed, Option.bind_eq_bind, Option.bind_some]
    rw [hname.required, htype.required, hvalue.optional, huniform.optional] <;> rfl

theorem readsBack_nodeDef (d : NodeDef) : ReadsBack 7 d := by
  have hname := readsBack_text d.name
  have hcategory := readsBack_text d.category
  have hinputs := readsBack_list readsBack_pinDef d.inputs
  have houtputs := readsBack_list readsBack_pinDef d.outputs
  refine readsBack_record 5 rfl ?_ ?_
  · exact (hname.fits (by decide)).cons <| (hcategory.fits (by decide)).cons <| (hinputs.fits (by decide)).cons <|
      (houtputs.fits (by decide)).cons <| List.forall_mem_nil _
  · simp only [decode?, fields?_unnamed, Option.bind_eq_bind, Option.bind_some]
    rw [hname.required, hcategory.required, hinputs.optional, houtputs.optional] <;> rfl

theorem readsBack_sourceDef (s : SourceDef) : ReadsBack 3 s := by
  have hname := readsBack_text s.name
  have hnodedef := readsBack_text s.nodedef
  have hfile := readsBack_option readsBack_text s.file
  have hfunction := readsBack_option readsBack_text s.function
  have hlanguage := readsBack_text s.language
  have htarget := readsBack_text s.target
  have hsource := readsBack_option readsBack_text s.source
  refine readsBack_record 1 rfl ?_ ?_
  · exact (hname.fits (by decide)).cons <| (hnodedef.fits (by decide)).cons <| (hfile.fits (by decide)).cons <|
      (hfunction.fits (by decide)).cons <| (hlanguage.fits (by decide)).cons <| (htarget.fits (by decide)).cons <|
      (hsource.fits (by decide)).cons <| List.forall_mem_nil _
  · simp only [decode?, fields?_unnamed, Option.bind_eq_bind, Option.bind_some]
    rw [hname.required, hnodedef.required, hfile.optional, hfunction.optional, hlanguage.required, htarget.optional,
      hsource.optional] <;> rfl

theorem readsBack_graphOutput (o : GraphOutput) : ReadsBack 3 o := by
  have hname := readsBack_text o.name
  have htype := readsBack_text o.typeName
  have hnode := readsBack_text o.nodeName
  have houtput := readsBack_option readsBack_text o.output
  have hchannels := readsBack_option readsBack_text o.channels
  refine readsBack_record 1 rfl ?_ ?_
  · exact (hname.fits (by decide)).cons <| (htype.fits (by decide)).cons <| (hnode.fits (by decide)).cons <|
      (houtput.fits (by decide)).cons <| (hchannels.fits (by decide)).cons <| List.forall_mem_nil _
  · simp only [decode?, fields?_unnamed, Option.bind_eq_bind, Option.bind_some]
    rw [hname.required, htype.required, hnode.required, houtput.optional, hchannels.optional] <;> rfl

theorem readsBack_inputBinding (i : InputBinding) : ReadsBack 3 i := by
  have hname := readsBack_text i.name
  have htype := readsBack_text i.typeName
  have hvalue := readsBack_option readsBack_text i.value
  have hnode := readsBack_option readsBack_text i.nodeName
  have houtput := readsBack_option readsBack_text i.output
  have hinterface := readsBack_option readsBack_text i.interfaceName
  have hchannels := readsBack_option readsBack_text i.channels
  refine readsBack_record 1 rfl ?_ ?_
  · exact (hname.fits (by decide)).cons <| (htype.fits (by decide)).cons <| (hvalue.fits (by decide)).cons <|
      (hnode.fits (by decide)).cons <| (houtput.fits (by decide)).cons <| (hinterface.fits (by decide)).cons <|
      (hchannels.fits (by decide)).cons <| List.forall_mem_nil _
  · simp only [decode?, fields?_unnamed, Option.bind_eq_bind, Option.bind_some]
    rw [hname.required, htype.required, hvalue.optional, hnode.optional, houtput.optional, hinterface.optional,
      hchannels.optional] <;> rfl

theorem readsBack_nodeInstance (n : NodeInstance) : ReadsBack 7 n := by
  have hname := readsBack_text n.name
  have hcategory := readsBack_text n.category
  have htype := readsBack_text n.typeName
  have hnodedef := readsBack_option readsBack_text n.nodedef
  have hinputs := readsBack_list readsBack_inputBinding n.inputs
  refine readsBack_record 5 rfl ?_ ?_
  · exact (hname.fits (by decide)).cons <| (hcategory.fits (by decide)).cons <| (htype.fits (by decide)).cons <|
      (hnodedef.fits (by decide)).cons <| (hinputs.fits (by decide)).cons <| List.forall_mem_nil _
  · simp only [decode?, fields?_unnamed, Option.bind_eq_bind, Option.bind_some]
    rw [hname.required, hcategory.required, htype.required, hnodedef.optional, hinputs.optional] <;> rfl

theorem readsBack_nodeGraph (g : NodeGraph) : ReadsBack 11 g := by
  have hname := readsBack_text g.name
  have hnodedef := readsBack_option readsBack_text g.nodedef
  have hinputs := readsBack_list readsBack_pinDef g.inputs
  have hnodes := readsBack_list readsBack_nodeInstance g.nodes
  have houtputs := readsBack_list readsBack_graphOutput g.outputs
  refine readsBack_record 9 rfl ?_ ?_
  · exact (hname.fits (by decide)).cons <| (hnodedef.fits (by decide)).cons <| (hinputs.fits (by decide)).cons <|
      (hnodes.fits (by decide)).cons <| (houtputs.fits (by decide)).cons <| List.forall_mem_nil _
  · simp only [decode?, fields?_unnamed, Option.bind_eq_bind, Option.bind_some]
    rw [hname.required, hnodedef.optional, hinputs.optional, hnodes.optional, houtputs.optional] <;> rfl

theorem readsBack_document (d : Document) : ReadsBack 15 d := by
  have hname := readsBack_text d.name
  have hnodedefs := readsBack_list readsBack_nodeDef d.nodedefs
  have hsources := readsBack_list readsBack_sourceDef d.sources
  have hgraphs := readsBack_list readsBack_nodeGraph d.nodegraphs
  have hnodes := readsBack_list readsBack_nodeInstance d.nodes
  refine readsBack_record 13 rfl ?_ ?_
  · exact (hname.fits (by decide)).cons <| (hnodedefs.fits (by decide)).cons <| (hsources.fits (by decide)).cons <|
      (hgraphs.fits (by decide)).cons <| (hnodes.fits (by decide)).cons <| List.forall_mem_nil _
  · simp only [decode?, fields?_unnamed, Option.bind_eq_bind, Option.bind_some]
    rw [hname.optional, hnodedefs.optional, hsources.optional, hgraphs.optional, hnodes.optional] <;> rfl

/-! ## Options -/

theorem readsBack_floatMode (m : FloatMode) : ReadsBack 0 m := by
  have hname (name : String) (hword : isWord name = true) (hmeaning : wordValue? name = some (.word name)) :
      Plain (.word name) := by
    rw [Plain]
    exact ⟨hword, hmeaning⟩
  cases m <;> exact ⟨hname _ (by decide) rfl, Nat.le_refl 0, rfl⟩

theorem readsBack_floatFormat {f : FloatFormat} (h : f.precision < 2 ^ 64) : ReadsBack 2 f := by
  have hmode := readsBack_floatMode f.mode
  have hprecision := readsBack_number h
  refine readsBack_record 0 rfl ?_ ?_
  · exact (hmode.fits (by decide)).cons <| (hprecision.fits (by decide)).cons <| List.forall_mem_nil _
  · simp only [decode?, fields?_unnamed, Option.bind_eq_bind, Option.bind_some]
    rw [hmode.required, hprecision.required] <;> rfl

theorem readsBack_options {o : Options} (hprecision : o.floatFormat.precision < 2 ^ 64) (hindent : o.indent < 2 ^ 64) :
    ReadsBack 4 o := by
  have hformat := readsBack_floatFormat hprecision
  have hflatten := readsBack_truth o.flatten
  have htarget := readsBack_option readsBack_text o.target
  have hindent := readsBack_number hindent
  have hdefinitions := readsBack_truth o.typeDefinitions
  have hsecondary := readsBack_truth o.secondary
  refine readsBack_record 2 rfl ?_ ?_
  · exact (hformat.fits (by decide)).cons <| (hflatten.fits (by decide)).cons <| (htarget.fits (by decide)).cons <|
      (hindent.fits (by decide)).cons <| (hdefinitions.fits (by decide)).cons <|
      (hsecondary.fits (by decide)).cons <| List.forall_mem_nil _
  · simp only [decode?, fields?_unnamed, Option.bind_eq_bind, Option.bind_some]
    rw [hformat.optional, hflatten.optional, htarget.optional, hindent.optional, hdefinitions.optional,
      hsecondary.optional] <;> rfl

theorem ReadsBack.text {α : Type} [Coded α] {bound : Nat} {a : α} (h : ReadsBack bound a)
    (hbound : bound ≤ maxDepth) : (read? (encode a).toText).bind (fun (s, r) => decode? s r) = some a := by
  rw [read?_toText h.plain (h.depth_le.trans hbound)]
  exact h.decode

end ShadeGraph.Ron

namespace ShadeGraph

/-- Every document reads back from its text, and so do all options with numbers of 64 bits. -/
theorem ofText?_toText :
    (∀ d : Document, Document.ofText? d.toText = some d) ∧
      ∀ o : Options, o.floatFormat.precision < 2 ^ 64 → o.indent < 2 ^ 64 → Options.ofText? o.toText = some o := by
  refine ⟨fun d => ?_, fun o hprecision hindent => ?_⟩
  · exact (Ron.readsBack_document d).text (by decide)
  · exact (Ron.readsBack_options hprecision hindent).text (by decide)

/-- Options with the largest numbers and a target that needs escapes read back. -/
theorem ofText?_toText_extreme :
    let o : Options := { floatFormat := ⟨.fixed, 2 ^ 64 - 1⟩, indent := 2 ^ 64 - 1, target := some "\"\\\x07\u00e9\u2028" }
    o.floatFormat.precision < 2 ^ 64 ∧ o.indent < 2 ^ 64 ∧ Options.ofText? o.toText = some o :=
  ⟨by decide, by decide, ofText?_toText.2 _ (by decide) (by decide)⟩

end ShadeGraph

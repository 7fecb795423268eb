import ShadeGraph.Proofs.Shader.Identities

/-!
# Requests do not disturb each other

One state serves request after request. It keeps the source files that were read, the identities that were picked, the
stack of compounds and the names of the last source code, and nothing of this shows in the answer to a later request,
whether the earlier ones were answered or failed somewhere on the way.
-/

namespace ShadeGraph

open Function

variable {path : SearchPath} {files : FileTree}

/-- The state after a sequence of requests, each answered or not. -/
def after (path : SearchPath) (files : FileTree) (jobs : List Job) (s : BuildState) : BuildState :=
  jobs.foldl (fun s job => stateAfter (job.run path files s)) s

/-- The same error, or the same answer up to the identities of the nodes in its graph. -/
def Alike (x y : Except Error Answer) : Prop :=
  ∃ (z : Except Error Answer) (f f' : NodeId → NodeId), Injective f ∧ Injective f' ∧
    x = z.map (Answer.rename f) ∧ y = z.map (Answer.rename f')

theorem Alike.report_eq {x y : Except Error Answer} (h : Alike x y) : x.map Answer.report = y.map Answer.report := by
  obtain ⟨z, f, f', -, -, rfl, rfl⟩ := h
  rw [Answer.report_map_rename, Answer.report_map_rename]

theorem stack_build (r : Request) (element : Shader.Element) (s : BuildState) :
    (stateAfter (element.build r s)).stack = s.stack := by
  cases element with
  | graph g => exact Build.stack_after ((Build.tracks_eq r).nodeGraph g)
  | node n => exact Build.stack_after ((Build.tracks_eq r).singleNode n)

section
variable {texts : String → Except Error String} {f : NodeId → NodeId} {s t : BuildState}

/-- One request keeps a state in step with one that counts identities, and a sequence of requests does so too. -/
theorem numbered_after (hf : Injective f) (jobs : List Job) (h : Build.At (Numbered path files texts f) [] s t) :
    Build.At (Numbered path files texts f) [] (after path files jobs s) (after path files jobs t) := by
  induction jobs generalizing s t with
  | nil => exact h
  | cons job jobs ih => exact ih (job.simulates_run hf s t h).stateAfter

/-- What a state holds besides the identities to pick does not matter, as long as no compound is entered and the view of
the source files is the one of the search path. -/
theorem Job.outcome_unburdened (hids : t.ids.Distinct) (hstack : t.stack = [])
    (hview : Build.view path files t.cache = Build.view path files []) (job : Job) :
    outcome (job.run path files t) = (outcome (job.run path files {})).map (Answer.rename t.ids.numbering) := by
  have hdraws : ∀ k, t.ids.draw k = t.ids.numbering (({} : IdSupply).draw k) := fun k => by
    change t.ids.draw k = t.ids.draw (0 + k)
    rw [Nat.zero_add]
  exact (job.simulates_run hids.numbering {} t ⟨rfl, hstack, rfl, hdraws, rfl, hview⟩).outcome_eq

end

/-- **A request leaves nothing behind for the next one.** Whatever requests have been served, the next one has the
outcome that it has on a fresh state, up to the identities of nodes; in particular it reports the same. And every build
leaves the stack of compounds as it found it, whether it fails or not. -/
theorem next_outcome_as_fresh (path : SearchPath) (files : FileTree) (earlier : List Job) (job : Job) (a b : IdSupply)
    (ha : a.Distinct) (hb : b.Distinct) :
    Alike (outcome (job.run path files (after path files earlier { ids := a })))
      (outcome (job.run path files { ids := b })) ∧
    (outcome (job.run path files (after path files earlier { ids := a }))).map Answer.report
      = (outcome (job.run path files { ids := b })).map Answer.report ∧
    (after path files earlier { ids := a }).stack = [] ∧
    ∀ (r : Request) (element : Shader.Element) (s : BuildState), (stateAfter (element.build r s)).stack = s.stack := by
  have hfresh : Build.At (Numbered path files _ a.numbering) [] {} { ids := a } := ⟨rfl, rfl, numbered_fresh {}⟩
  obtain ⟨-, hstack, hnumbered⟩ := numbered_after ha.numbering earlier hfresh
  have halike : Alike (outcome (job.run path files (after path files earlier { ids := a })))
      (outcome (job.run path files { ids := b })) :=
    have hids := hnumbered.distinct ha.numbering
    ⟨_, _, _, hids.numbering, hb.numbering, job.outcome_unburdened hids hstack hnumbered.second,
      job.outcome_unburdened (t := { ids := b }) hb rfl rfl⟩
  exact ⟨halike, halike.report_eq, hstack, stack_build⟩

/-- The document has source code in one language only, so that the first of the two requests fails inside of a
compound. -/
theorem chain_after_failure : skipping.Distinct ∧ ({} : IdSupply).Distinct ∧
    (outcome ((Job.shader relay { language := .mdl } {} "chain" (.graph chain)).run {} {} { ids := skipping })).isOk
      = false ∧
    (outcome ((Job.shader relay { language := .osl } {} "chain" (.graph chain)).run {} {} {})).isOk = true ∧
    Alike
      (outcome ((Job.shader relay { language := .osl } {} "chain" (.graph chain)).run {} {}
        (after {} {} [.shader relay { language := .mdl } {} "chain" (.graph chain)] { ids := skipping })))
      (outcome ((Job.shader relay { language := .osl } {} "chain" (.graph chain)).run {} {} {})) := by
  exact ⟨skipping_distinct, counting_distinct, by decide +kernel, by decide +kernel,
    (next_outcome_as_fresh {} {} [.shader relay { language := .mdl } {} "chain" (.graph chain)] _ skipping {}
      skipping_distinct counting_distinct).1⟩

end ShadeGraph

import Mathlib.Data.List.Induction
import Mathlib.Data.List.Nodup
import ShadeGraph.Files.Tree
import ShadeGraph.Proofs.Outcome
import ShadeGraph.Proofs.Value.RoundTrip

/-!
# Well formed file trees

A tree of files is a list of entries that could be any list. In a *well formed* one each location has one entry, which
stands in a directory under a name. Putting files at paths and removing them keeps trees well formed, so those that
requests meet are. In a well formed tree a path leads to the entry at its location, and the path of an entry in a
directory is the directory's path with the name behind it.
-/

namespace ShadeGraph

/-! ## Names between slashes -/

namespace Text

theorem splitAt_append (sep : Char) (cs ds : List Char) :
    splitAt sep (cs ++ sep :: ds) = splitAt sep cs ++ splitAt sep ds := by
  induction cs with
  | nil => exact splitAt_cons_sep sep ds
  | cons c cs ih =>
    obtain ⟨piece, rest, h, hcons⟩ := splitAt_cons sep c cs
    obtain ⟨piece', rest', h', hcons'⟩ := splitAt_cons sep c (cs ++ sep :: ds)
    rw [ih, h, List.cons_append, List.cons.injEq] at h'
    obtain ⟨rfl, rfl⟩ := h'
    rw [List.cons_append, hcons, hcons']
    split <;> rfl

theorem notMem_of_mem_splitAt {sep : Char} {cs piece : List Char} (h : piece ∈ splitAt sep cs) : sep ∉ piece := by
  induction cs generalizing piece with
  | nil =>
    obtain rfl := List.mem_singleton.mp h
    exact List.not_mem_nil
  | cons c cs ih =>
    obtain ⟨first, rest, hcs, hcons⟩ := splitAt_cons sep c cs
    rw [hcons] at h
    have hfirst : sep ∉ first := ih (by simp [hcs])
    split at h
    · rcases List.mem_cons.mp h with rfl | h
      · exact List.not_mem_nil
      · exact ih (hcs ▸ h)
    · rename_i hc
      rcases List.mem_cons.mp h with rfl | h
      · exact fun hmem => (List.mem_cons.mp hmem).elim (fun heq => hc heq.symm) hfirst
      · exact ih (by simp [hcs, h])

end Text

theorem Path.notMem_of_mem_pieces {path piece : String} (h : piece ∈ Path.pieces path) : '/' ∉ piece.toList := by
  obtain ⟨cs, hcs, rfl⟩ := List.mem_map.mp h
  rw [String.toList_ofList]
  exact Text.notMem_of_mem_splitAt hcs

namespace FileTree

/-- A name under which something can stand in a directory. -/
structure IsName (name : String) : Prop where
  notSkipped : Path.isSkipped name = false
  notAbove : name ≠ ".."
  noSlash : '/' ∉ name.toList
  short : isLongName name = false

/-- Each location has one entry, which stands in a directory under a name. -/
structure WellFormed (t : FileTree) : Prop where
  once : (t.entries.map Prod.fst).Nodup
  inside : ∀ e ∈ t.entries, ∃ parent name, e.1 = parent ++ [name] ∧ IsName name ∧ t.lookup? parent = some .directory

variable {t : FileTree} {location parent : Location} {name path : String} {entry : FileEntry}

/-! ## Entries -/

theorem IsName.ne_slash (h : IsName name) : name ≠ "/" := by
  rintro rfl
  exact h.noSlash (by simp)

theorem IsName.leadsDown (h : IsName name) : leadsDown name = true := by
  simp [FileTree.leadsDown, h.notAbove, h.ne_slash]

theorem lookup?_of_leadsDown (hmem : name ∈ location) (hname : leadsDown name = true) :
    t.lookup? location = t.entries.lookup location := by
  simp only [FileTree.leadsDown, Bool.and_eq_true, bne_iff_ne] at hname
  have habove : isAbove location = false := by
    rw [isAbove, List.all_eq_false]
    exact ⟨name, hmem, by simpa using hname.1⟩
  have hroot : location ≠ ["/"] := by
    rintro rfl
    exact hname.2 (List.mem_singleton.mp hmem)
  simp [lookup?, habove, hroot]

theorem lookup?_concat (t : FileTree) (parent : Location) (hname : leadsDown name = true) :
    t.lookup? (parent ++ [name]) = t.entries.lookup (parent ++ [name]) :=
  lookup?_of_leadsDown (by simp) hname

theorem lookup?_of_isAbove (t : FileTree) (h : isAbove location = true) : t.lookup? location = some .directory := by
  simp [lookup?, h]

theorem lookup_of_mem {entries : List (Location × FileEntry)} (h : (entries.map Prod.fst).Nodup)
    (hmem : (location, entry) ∈ entries) : entries.lookup location = some entry := by
  induction entries with
  | nil => cases hmem
  | cons e entries ih =>
    rw [List.map_cons, List.nodup_cons] at h
    rcases List.mem_cons.mp hmem with rfl | hmem
    · simp
    · have hne : location ≠ e.1 := by
        rintro rfl
        exact h.1 (List.mem_map.mpr ⟨_, hmem, rfl⟩)
      rw [List.lookup_cons, beq_eq_false_iff_ne.mpr hne]
      exact ih h.2 hmem

theorem lookup_filter (p : Location → Bool) (entries : List (Location × FileEntry)) (location : Location) :
    (entries.filter fun e => p e.1).lookup location = if p location then entries.lookup location else none := by
  induction entries with
  | nil => simp
  | cons e entries ih =>
    obtain ⟨key, value⟩ := e
    rw [List.filter_cons, List.lookup_cons]
    by_cases hkey : location = key
    · rw [hkey, beq_self_eq_true]
      cases hp : p key with
      | true => simp
      | false => simpa [hkey, hp] using ih
    · rw [beq_eq_false_iff_ne.mpr hkey, ← ih]
      cases p key with
      | true => simp [List.lookup_cons, beq_eq_false_iff_ne.mpr hkey]
      | false => simp

theorem mem_of_lookup {entries : List (Location × FileEntry)} (h : entries.lookup location = some entry) :
    (location, entry) ∈ entries := by
  obtain ⟨front, back, rfl, -⟩ := List.lookup_eq_some_iff.mp h
  simp

namespace WellFormed

theorem lookup?_of_mem (h : t.WellFormed) (hmem : (location, entry) ∈ t.entries) : t.lookup? location = some entry := by
  obtain ⟨parent, name, rfl, hname, -⟩ := h.inside _ hmem
  rw [lookup?_concat t parent hname.leadsDown]
  exact lookup_of_mem h.once hmem

/-- What stands at a location is an entry, or a directory in which the working directory is. -/
theorem mem_or_above (hentry : t.lookup? location = some entry) :
    (location, entry) ∈ t.entries ∨ entry = .directory ∧ (isAbove location = true ∨ location = ["/"]) := by
  unfold lookup? at hentry
  split at hentry
  · rename_i habove
    exact Or.inr ⟨(Option.some.inj hentry).symm, by simpa using habove⟩
  · exact Or.inl (mem_of_lookup hentry)

theorem directory_of_mem (h : t.WellFormed) {rest : List String} (hrest : rest ≠ [])
    (hmem : (location ++ rest, entry) ∈ t.entries) : t.lookup? location = some .directory := by
  induction rest using List.reverseRecOn generalizing entry with
  | nil => exact absurd rfl hrest
  | append_singleton rest last ih =>
    obtain ⟨parent, name, heq, -, hparent⟩ := h.inside _ hmem
    dsimp only at heq
    rw [← List.append_assoc] at heq
    obtain ⟨rfl, -⟩ := List.append_inj' heq rfl
    by_cases hnil : rest = []
    · rwa [hnil, List.append_nil] at hparent
    · rcases mem_or_above hparent with hmem' | ⟨-, habove | hroot⟩
      · exact ih hnil hmem'
      · rw [isAbove, List.all_append, Bool.and_eq_true] at habove
        exact lookup?_of_isAbove t habove.1
      · obtain ⟨rfl, -⟩ : location = [] ∧ rest = ["/"] := by
          rcases List.append_eq_cons_iff.mp hroot with hcase | ⟨_, rfl, hcase⟩
          · exact hcase
          · exact absurd (List.append_eq_nil_iff.mp hcase.symm).2 hnil
        exact lookup?_of_isAbove t rfl

theorem isName_of_child (h : t.WellFormed) (hmem : (location ++ [name], entry) ∈ t.entries) : IsName name := by
  obtain ⟨parent, name', heq, hname, -⟩ := h.inside _ hmem
  obtain ⟨-, heq⟩ := List.append_inj' heq rfl
  rw [List.cons.injEq] at heq
  exact heq.1 ▸ hname

theorem isName_of_mem (h : t.WellFormed) {front back : List String} (hname : leadsDown name = true)
    (hmem : (front ++ name :: back, entry) ∈ t.entries) :
    IsName name ∧ ∃ child, (front ++ [name], child) ∈ t.entries := by
  have hchild : ∃ child, (front ++ [name], child) ∈ t.entries := by
    by_cases hback : back = []
    · exact ⟨entry, by rwa [hback] at hmem⟩
    · have hdirectory : t.lookup? (front ++ [name]) = some .directory :=
        h.directory_of_mem hback (by simpa using hmem)
      exact ⟨.directory, mem_of_lookup (by rwa [lookup?_concat t front hname] at hdirectory)⟩
  obtain ⟨child, hmem'⟩ := hchild
  exact ⟨h.isName_of_child hmem', child, hmem'⟩

end WellFormed

/-! ## Changes -/

theorem WellFormed.empty : WellFormed {} := ⟨List.nodup_nil, fun _ he => absurd he List.not_mem_nil⟩

theorem lookup?_set (t : FileTree) (hname : leadsDown name = true) (other : Location) :
    (t.set (parent ++ [name]) entry).lookup? other =
      if other = parent ++ [name] then some entry else t.lookup? other := by
  have hlookup : (t.entries.filter fun e => e.1 != parent ++ [name]).lookup other =
      if other != parent ++ [name] then t.entries.lookup other else none := lookup_filter (· != parent ++ [name]) _ _
  by_cases hother : other = parent ++ [name]
  · subst hother
    rw [lookup?_concat _ parent hname, if_pos rfl, set, List.lookup_append, hlookup]
    simp
  · have hlast : [(parent ++ [name], entry)].lookup other = none := by
      rw [List.lookup_cons, beq_eq_false_iff_ne.mpr hother]
      rfl
    have hne : (other != parent ++ [name]) = true := bne_iff_ne.mpr hother
    rw [if_neg hother, lookup?, lookup?, set, List.lookup_append, hlookup, hlast, hne, Option.or_none, if_pos rfl]

theorem mem_set {e : Location × FileEntry} (h : e ∈ (t.set location entry).entries) :
    e ∈ t.entries ∧ e.1 ≠ location ∨ e = (location, entry) := by
  rcases List.mem_append.mp h with h | h
  · rw [List.mem_filter] at h
    exact Or.inl ⟨h.1, by simpa using h.2⟩
  · exact Or.inr (List.mem_singleton.mp h)

namespace WellFormed

theorem set (h : t.WellFormed) (hparent : t.lookup? parent = some .directory) (hname : IsName name)
    (hkept : t.lookup? (parent ++ [name]) = some .directory → entry = .directory) :
    (t.set (parent ++ [name]) entry).WellFormed where
  once := by
    rw [FileTree.set, List.map_append, List.nodup_append]
    refine ⟨h.once.sublist (List.filter_sublist.map Prod.fst), by simp, ?_⟩
    intro l hl l' hl'
    obtain ⟨e, he, rfl⟩ := List.mem_map.mp hl
    obtain rfl : l' = parent ++ [name] := by simpa using hl'
    simpa using (List.mem_filter.mp he).2
  inside := by
    have hdirectory (l : Location) (hl : t.lookup? l = some .directory) :
        (t.set (parent ++ [name]) entry).lookup? l = some .directory := by
      rw [lookup?_set t hname.leadsDown]
      split
      · rename_i heq
        rw [hkept (heq ▸ hl)]
      · exact hl
    intro e he
    rcases mem_set he with ⟨he, -⟩ | rfl
    · obtain ⟨parent', name', heq, hname', hparent'⟩ := h.inside e he
      exact ⟨parent', name', heq, hname', hdirectory parent' hparent'⟩
    · exact ⟨parent, name, rfl, hname, hdirectory parent hparent⟩

theorem above (h : t.WellFormed) (hdirectory : t.lookup? location = some .directory) :
    t.lookup? (FileTree.above location) = some .directory := by
  unfold FileTree.above
  split
  · rename_i habove
    refine lookup?_of_isAbove t ?_
    rw [isAbove, List.all_append, Bool.and_eq_true]
    exact ⟨habove, rfl⟩
  · split
    · exact hdirectory
    · rename_i habove hroot
      rcases mem_or_above hdirectory with hmem | ⟨-, hcase | hcase⟩
      · obtain ⟨parent, name, heq, -, hparent⟩ := h.inside _ hmem
        dsimp only at heq
        rw [heq, List.dropLast_concat]
        exact hparent
      · exact absurd hcase habove
      · exact absurd hcase hroot

theorem isName_of_piece (hslash : '/' ∉ name.toList) (hskipped : ¬ Path.isSkipped name = true) (habove : name ≠ "..")
    (hlong : ¬ isLongName name = true) : IsName name :=
  ⟨by simpa using hskipped, habove, hslash, by simpa using hlong⟩

theorem ensure {pieces : List String} {t' : FileTree} (h : t.WellFormed)
    (hdirectory : t.lookup? location = some .directory) (hpieces : ∀ p ∈ pieces, '/' ∉ p.toList)
    (hensure : t.ensure location pieces = some t') : t'.WellFormed := by
  induction pieces generalizing t location with
  | nil =>
    obtain rfl := Option.some.inj hensure
    exact h
  | cons piece rest ih =>
    obtain ⟨hpiece, hrest⟩ := List.forall_mem_cons.mp hpieces
    rw [FileTree.ensure] at hensure
    split at hensure
    · exact ih h hdirectory hrest hensure
    · rename_i hskipped
      split at hensure
      · exact ih h (h.above hdirectory) hrest hensure
      · rename_i habove
        split at hensure
        · cases hensure
        · rename_i hlong
          have hname : IsName piece := isName_of_piece hpiece hskipped habove hlong
          split at hensure
          · rename_i hthere
            exact ih h hthere hrest hensure
          · cases hensure
          · rename_i hnone
            refine ih (h.set hdirectory hname fun _ => rfl) ?_ hrest hensure
            rw [lookup?_set t hname.leadsDown, if_pos rfl]

theorem makeDirectory {t' : FileTree} (h : t.WellFormed) (hmake : t.makeDirectory path = some t') : t'.WellFormed := by
  unfold FileTree.makeDirectory at hmake
  split at hmake
  · exact Option.some.inj hmake ▸ h
  · split at hmake
    · refine h.ensure ?_ (fun p hp => Path.notMem_of_mem_pieces hp) hmake
      unfold start
      split <;> rfl
    · cases hmake

theorem last_piece (h : ((Path.pieces path).reverse.dropWhile (· == "")).reverse.getLast? = some name) :
    name ∈ Path.pieces path ∧ name ≠ "" := by
  rw [List.getLast?_reverse] at h
  refine ⟨?_, ?_⟩
  · exact List.mem_reverse.mp ((List.dropWhile_suffix _).mem (List.mem_of_mem_head? h))
  · have hhead := List.head?_dropWhile_not (fun piece : String => piece == "") (Path.pieces path).reverse
    rw [h] at hhead
    simpa using hhead

theorem isName_of_target (h : t.target path = .ok location) :
    ∃ parent name, location = parent ++ [name] ∧ IsName name ∧ t.lookup? parent = some .directory := by
  obtain ⟨-, -, h⟩ := except_bind_eq_ok.mp h
  dsimp only at h
  split at h
  · exact absurd h except_throw_ne_ok
  · rename_i name hlast
    obtain ⟨hmem, hempty⟩ := last_piece hlast
    obtain ⟨directory, -, h⟩ := except_bind_eq_ok.mp h
    split at h
    · rename_i hdirectory
      split at h
      · exact absurd h except_throw_ne_ok
      · rename_i hdots
        split at h
        · exact absurd h except_throw_ne_ok
        · rename_i hlong
          simp only [Bool.or_eq_true, decide_eq_true_eq, not_or] at hdots
          have hskipped : ¬ Path.isSkipped name = true := by simp [Path.isSkipped, hempty, hdots.1.1]
          exact ⟨directory, name, (Except.ok.inj h).symm,
            isName_of_piece (Path.notMem_of_mem_pieces hmem) hskipped hdots.1.2 hlong, hdirectory⟩
    · exact absurd h except_throw_ne_ok
    · exact absurd h except_throw_ne_ok

theorem store {t' : FileTree} (h : t.WellFormed) (hstore : t.store path entry = .ok t') : t'.WellFormed := by
  obtain ⟨location, htarget, hstore⟩ := except_bind_eq_ok.mp hstore
  obtain ⟨parent, name, rfl, hname, hparent⟩ := isName_of_target htarget
  split at hstore
  · exact absurd hstore except_throw_ne_ok
  · rename_i hfile
    obtain rfl := Except.ok.inj hstore
    exact h.set hparent hname fun hdirectory => absurd hdirectory hfile

theorem place {t' : FileTree} (h : t.WellFormed) (hplace : t.place path entry = some t') : t'.WellFormed := by
  unfold FileTree.place at hplace
  split at hplace
  · exact h.makeDirectory hplace
  · obtain ⟨t₁, hmake, hstore⟩ := Option.bind_eq_some_iff.mp hplace
    cases hresult : t₁.store path entry with
    | error e => simp [hresult, Except.toOption] at hstore
    | ok t₂ =>
      obtain rfl : t₂ = t' := by simpa [hresult, Except.toOption] using hstore
      exact (h.makeDirectory hmake).store hresult

end WellFormed

/-- The tree of the files that can be put at their paths one after the other. -/
def ofFiles (files : List (String × FileEntry)) : FileTree := files.foldl (fun t f => (t.place f.1 f.2).getD t) {}

theorem WellFormed.ofFiles (files : List (String × FileEntry)) : (FileTree.ofFiles files).WellFormed := by
  have hfold (t : FileTree) (h : t.WellFormed) :
      (files.foldl (fun t f => (t.place f.1 f.2).getD t) t).WellFormed := by
    induction files generalizing t with
    | nil => exact h
    | cons f files ih =>
      refine ih _ ?_
      dsimp only
      cases hplace : t.place f.1 f.2 with
      | none => exact h
      | some t' => exact h.place hplace
  exact hfold {} WellFormed.empty

/-! ## Deleted files -/

def without (t : FileTree) (gone : Location → Bool) : FileTree := ⟨t.entries.filter fun e => !gone e.1⟩

/-- No directories are at the locations. -/
def FilesOnly (t : FileTree) (gone : Location → Bool) : Prop :=
  ∀ location, gone location = true → t.lookup? location ≠ some .directory

variable {gone : Location → Bool}

theorem lookup_without (t : FileTree) (gone : Location → Bool) (location : Location) :
    (t.without gone).entries.lookup location = if gone location then none else t.entries.lookup location := by
  rw [without, lookup_filter (fun location => !gone location)]
  cases gone location <;> rfl

theorem lookup?_without_directory (hfiles : t.FilesOnly gone) :
    (t.without gone).lookup? location = some .directory ↔ t.lookup? location = some .directory := by
  have hgone := hfiles location
  unfold lookup? at hgone ⊢
  split
  · rfl
  · rename_i habove
    rw [if_neg habove] at hgone
    rw [lookup_without]
    split
    · rename_i hcase
      simpa using hgone hcase
    · rfl

theorem lookup?_without_of_not (hkept : gone location = false) :
    (t.without gone).lookup? location = t.lookup? location := by
  rw [lookup?, lookup?, lookup_without, hkept]
  rfl

theorem WellFormed.without (h : t.WellFormed) (hfiles : t.FilesOnly gone) : (t.without gone).WellFormed where
  once := h.once.sublist (List.filter_sublist.map Prod.fst)
  inside := by
    intro e he
    obtain ⟨parent, name, heq, hname, hparent⟩ := h.inside e (List.mem_filter.mp he).1
    exact ⟨parent, name, heq, hname, (lookup?_without_directory hfiles).mpr hparent⟩

/-! ## Paths -/

/-- A path leads to a location, be there an entry or not. -/
def Leads (t : FileTree) (path : String) (location : Location) : Prop :=
  path ≠ "" ∧ t.follow (start path) (Path.pieces path) = .ok location

theorem resolve_eq_ok_iff : t.resolve path = .ok (location, entry) ↔
    checkPath path = .ok () ∧ t.Leads path location ∧ t.lookup? location = some entry := by
  have hne (hcheck : checkPath path = .ok ()) : path ≠ "" := by
    rintro rfl
    exact absurd hcheck (by decide)
  unfold resolve
  rw [except_bind_eq_ok]
  constructor
  · rintro ⟨⟨⟩, hcheck, h⟩
    obtain ⟨location', hfollow, h⟩ := except_bind_eq_ok.mp h
    split at h
    · rename_i entry' hentry
      obtain ⟨rfl, rfl⟩ := Prod.mk.inj (Except.ok.inj h)
      exact ⟨hcheck, ⟨hne hcheck, hfollow⟩, hentry⟩
    · exact absurd h except_throw_ne_ok
  · rintro ⟨hcheck, ⟨-, hfollow⟩, hentry⟩
    refine ⟨(), hcheck, except_bind_eq_ok.mpr ⟨location, hfollow, ?_⟩⟩
    rw [hentry]
    rfl

theorem contains_iff : t.contains path = true ↔ ∃ location entry, t.resolve path = .ok (location, entry) := by
  rw [contains]
  cases t.resolve path with
  | error e => simp [Except.toOption]
  | ok found => exact iff_of_true rfl ⟨found.1, found.2, rfl⟩

theorem follow_append (t : FileTree) (ps qs : List String) : ∀ location, t.follow location (ps ++ qs) =
    (t.follow location ps).bind fun location => t.follow location qs := by
  induction ps with
  | nil => exact fun _ => rfl
  | cons p ps ih =>
    intro location
    rw [List.cons_append, follow, follow]
    split
    · rfl
    · split
      · exact ih location
      · split
        · exact ih _
        · split
          · rfl
          · exact ih _
    · rfl

theorem follow_without (hfiles : t.FilesOnly gone) (ps : List String) {target : Location} :
    ∀ location, (t.without gone).follow location ps = .ok target ↔ t.follow location ps = .ok target := by
  induction ps with
  | nil => exact fun _ => Iff.rfl
  | cons p ps ih =>
    intro location
    by_cases hdirectory : t.lookup? location = some .directory
    · rw [follow, follow, (lookup?_without_directory hfiles).mpr hdirectory, hdirectory]
      dsimp only
      split
      · exact ih location
      · split
        · exact ih _
        · split
          · rfl
          · exact ih _
    · have hother (t' : FileTree) (ht' : t'.lookup? location ≠ some .directory) :
          t'.follow location (p :: ps) ≠ .ok target := by
        rw [follow]
        split
        · simp
        · contradiction
        · simp
      exact iff_of_false (hother _ fun h => hdirectory ((lookup?_without_directory hfiles).mp h)) (hother t hdirectory)

theorem leads_without (hfiles : t.FilesOnly gone) : (t.without gone).Leads path location ↔ t.Leads path location := by
  rw [Leads, Leads, follow_without hfiles]

theorem lookup?_of_without (h : (t.without gone).lookup? location = some entry) : t.lookup? location = some entry := by
  rw [lookup?] at h ⊢
  split
  · rename_i habove
    rwa [if_pos habove] at h
  · rename_i habove
    rw [if_neg habove, lookup_without] at h
    split at h
    · cases h
    · exact h

theorem resolve_without (hfiles : t.FilesOnly gone) (hleads : t.Leads path location) (hkept : gone location = false) :
    (t.without gone).resolve path = t.resolve path := by
  rw [resolve, resolve, hleads.2, (follow_without hfiles _ _).mpr hleads.2]
  simp only [bind, Except.bind, lookup?_without_of_not hkept]

theorem contains_of_without (hfiles : t.FilesOnly gone) (h : (t.without gone).contains path = true) :
    t.contains path = true := by
  obtain ⟨location, entry, hresolve⟩ := contains_iff.mp h
  obtain ⟨hcheck, hleads, hentry⟩ := resolve_eq_ok_iff.mp hresolve
  exact contains_iff.mpr ⟨location, entry,
    resolve_eq_ok_iff.mpr ⟨hcheck, (leads_without hfiles).mp hleads, lookup?_of_without hentry⟩⟩

theorem follow_name (hdirectory : t.lookup? location = some .directory) (hname : IsName name) :
    t.follow location [name] = .ok (location ++ [name]) := by
  simp [follow, hdirectory, hname.notSkipped, hname.notAbove, hname.short]

theorem eq_of_follow_empty {target : Location} (h : t.follow location [""] = .ok target) : location = target := by
  rw [follow] at h
  split at h
  · cases h
  · exact Except.ok.inj h
  · cases h

theorem pieces_append_slash (cs : List Char) {s : String} (hs : s.toList = cs ++ '/' :: name.toList)
    (hname : IsName name) : Path.pieces s = (Text.splitAt '/' cs).map String.ofList ++ [name] := by
  rw [Path.pieces, hs, Text.splitAt_append, Text.splitAt_of_not_mem hname.noSlash, List.map_append]
  simp

theorem follow_concat {ps : List String} {first : Location} (hfollow : t.follow first ps = .ok location)
    (hdirectory : t.lookup? location = some .directory) (hname : IsName name) :
    t.follow first (ps ++ [name]) = .ok (location ++ [name]) := by
  rw [follow_append, hfollow]
  exact follow_name hdirectory hname

theorem start_append (hne : path ≠ "") (s : String) : start (path ++ s) = start path := by
  have hhead : (path ++ s).toList.head? = path.toList.head? := by
    rw [String.toList_append, List.head?_append_of_ne_nil _ (by simpa using hne)]
  rw [start, start, Path.isAbsolute, Path.isAbsolute, hhead]

theorem Leads.join (h : t.Leads path location) (hdirectory : t.lookup? location = some .directory)
    (hname : IsName name) : t.Leads (Path.join path name) (location ++ [name]) := by
  obtain ⟨hne, hfollow⟩ := h
  have habsolute : Path.isAbsolute name = false := by
    rw [Path.isAbsolute, beq_eq_false_iff_ne]
    exact fun hhead => hname.noSlash (List.mem_of_mem_head? hhead)
  rw [Path.join, habsolute, Bool.false_or, if_neg (by simpa using hne)]
  split
  · -- The path ends with a slash: its last piece is empty, and the name takes its place.
    rename_i hslash
    obtain ⟨cs, hcs⟩ := List.getLast?_eq_some_iff.mp (beq_iff_eq.mp hslash)
    have hpieces : Path.pieces path = (Text.splitAt '/' cs).map String.ofList ++ [""] := by
      rw [Path.pieces, hcs, Text.splitAt_append, List.map_append]
      rfl
    rw [hpieces, follow_append] at hfollow
    obtain ⟨location', hfront, hempty⟩ := except_bind_eq_ok.mp hfollow
    obtain rfl := eq_of_follow_empty hempty
    refine ⟨by simp [hne], ?_⟩
    rw [start_append hne, pieces_append_slash cs (by rw [String.toList_append, hcs]; simp) hname]
    exact follow_concat hfront hdirectory hname
  · refine ⟨by simp, ?_⟩
    rw [String.append_assoc, start_append hne, pieces_append_slash path.toList (by simp) hname]
    exact follow_concat hfollow hdirectory hname

end FileTree
end ShadeGraph

import ShadeGraph.Dialect.Basic
import ShadeGraph.Proofs.Text.Fresh

/-!
# Valid names

A sanitized name is an identifier and stays one when a number is put behind it, so every candidate for a valid name is
an identifier, and the first candidate that is neither reserved nor used is a valid name.

Names that are made one after another, each against those before it, are *fresh*: identifiers that are not reserved, not
in use and different from each other.
-/

namespace ShadeGraph.Dialect

/-! ## Identifiers -/

/-- Whether a character may begin an identifier: an ASCII letter or an underscore. -/
def isNameStart (c : Char) : Bool := c.isAlpha || c = '_'

/-- A letter or an underscore, and behind it letters, digits and underscores. -/
def IsIdentifier (name : String) : Prop :=
  ∃ first rest, name.toList = first :: rest ∧ isNameStart first = true ∧ ∀ c ∈ rest, isNameChar c = true

theorem isNameStart_of_isNameChar {c : Char} (hc : isNameChar c = true) (hdigit : c.isDigit = false) :
    isNameStart c = true := by
  simpa [isNameStart, isNameChar, Char.isAlphanum, hdigit] using hc

theorem IsIdentifier.ne_empty {name : String} (h : IsIdentifier name) : name ≠ "" := by
  rintro rfl
  obtain ⟨first, rest, hlist, -⟩ := h
  exact absurd hlist.symm (List.cons_ne_nil first rest)

theorem IsIdentifier.append {name suffix : String} (h : IsIdentifier name)
    (hsuffix : ∀ c ∈ suffix.toList, isNameChar c = true) : IsIdentifier (name ++ suffix) := by
  obtain ⟨first, rest, hlist, hfirst, hrest⟩ := h
  refine ⟨first, rest ++ suffix.toList, ?_, hfirst, List.forall_mem_append.mpr ⟨hrest, hsuffix⟩⟩
  rw [String.toList_append, hlist, List.cons_append]

theorem isNameChar_toString {n : Nat} : ∀ c ∈ (toString n).toList, isNameChar c = true := by
  intro c hc
  rw [Nat.toString_eq_repr, Nat.toList_repr] at hc
  have hdigit : c.isDigit = true := Nat.isDigit_of_mem_toDigits (by decide) (by decide) hc
  simp [isNameChar, Char.isAlphanum, hdigit]

theorem IsIdentifier.numbered {base : String} (h : IsIdentifier base) : ∀ k, IsIdentifier (Text.numbered base k)
  | 0 => h
  | _ + 1 => h.append isNameChar_toString

theorem isIdentifier_sanitize (name : String) : IsIdentifier (sanitize name) := by
  have hchars : ∀ c ∈ name.toList.map fun c => if isNameChar c then c else '_', isNameChar c = true := by
    intro c hc
    obtain ⟨original, -, rfl⟩ := List.mem_map.mp hc
    split
    · assumption
    · rfl
  simp only [sanitize]
  split
  · exact ⟨'_', [], rfl, rfl, List.forall_mem_nil _⟩
  · rename_i first rest hlist
    rw [hlist] at hchars ⊢
    split
    · exact ⟨'_', first :: rest, String.toList_ofList, rfl, hchars⟩
    · rename_i hdigit
      obtain ⟨hfirst, hrest⟩ := List.forall_mem_cons.mp hchars
      have hstart := isNameStart_of_isNameChar hfirst (Bool.eq_false_iff.mpr hdigit)
      exact ⟨first, rest, String.toList_ofList, hstart, hrest⟩

/-! ## Making a valid name -/

variable {d : Dialect} {used : List String}

/-- A candidate that cannot be given: a reserved word or a name in use. -/
def Taken (d : Dialect) (used : List String) (name : String) : Prop := d.isReserved name = true ∨ name ∈ used

theorem taken_iff_mem {name : String} : d.Taken used name ↔ name ∈ d.reserved ++ used := by
  rw [Taken, isReserved, List.contains_iff_mem, List.mem_append]

/-- **The search for a valid name ends at the first candidate that is not taken**, and it passes no more candidates than
there are reserved words and names in use. -/
theorem validName_first (d : Dialect) (used : List String) (name : String) :
    ∃ k ≤ d.reserved.length + used.length, d.validName used name = Text.numbered (sanitize name) k ∧
      ¬ d.Taken used (Text.numbered (sanitize name) k) ∧
      ∀ j < k, d.Taken used (Text.numbered (sanitize name) j) := by
  obtain ⟨k, hk, hname, hfree, hbefore⟩ := Text.freshName_first (d.reserved ++ used) (sanitize name)
  rw [List.length_append] at hk
  exact ⟨k, hk, hname, mt taken_iff_mem.mp hfree, fun j hj => taken_iff_mem.mpr (hbefore j hj)⟩

/-! ## Fresh names -/

/-- Names that can be given when others are in use: they are identifiers, not reserved, not in use and different from
each other. -/
structure Fresh (d : Dialect) (used names : List String) : Prop where
  identifier : ∀ name ∈ names, IsIdentifier name
  unreserved : ∀ name ∈ names, d.isReserved name = false
  unused : ∀ name ∈ names, name ∉ used
  distinct : names.Nodup

theorem Fresh.nil : d.Fresh used [] :=
  ⟨List.forall_mem_nil _, List.forall_mem_nil _, List.forall_mem_nil _, List.nodup_nil⟩

/-- **A valid name is fresh.** -/
theorem Fresh.validName (d : Dialect) (used : List String) (name : String) : d.Fresh used [d.validName used name] := by
  obtain ⟨k, -, hname, hfree, -⟩ := validName_first d used name
  rw [hname]
  refine ⟨?_, ?_, ?_, List.nodup_singleton _⟩ <;> rw [List.forall_mem_singleton]
  · exact (isIdentifier_sanitize name).numbered k
  · exact Bool.eq_false_iff.mpr (mt Or.inl hfree)
  · exact mt Or.inr hfree

theorem Fresh.append {names more : List String} (h : d.Fresh used names) (hmore : d.Fresh (used ++ names) more) :
    d.Fresh used (names ++ more) where
  identifier := List.forall_mem_append.mpr ⟨h.identifier, hmore.identifier⟩
  unreserved := List.forall_mem_append.mpr ⟨h.unreserved, hmore.unreserved⟩
  unused := List.forall_mem_append.mpr
    ⟨h.unused, fun name hname hused => hmore.unused name hname (List.mem_append_left _ hused)⟩
  distinct := by
    refine List.nodup_append'.mpr ⟨h.distinct, hmore.distinct, ?_⟩
    intro name hname hagain
    exact hmore.unused name hagain (List.mem_append_right _ hname)

end ShadeGraph.Dialect

import FirmwareJobs.Files.Tree
import Mathlib.Data.List.Basic
import Mathlib.Data.List.Induction

/-!
# Entries of a tree

What is found at a place after an entry is put or erased, and the trees that a file system can
have: every place has one entry, its parent is a directory, and its name is one that a path can
lead to.
-/

namespace FirmwareJobs.Files

/-- A name that a path can end with: one part of it, and neither the directory itself nor the one
above. -/
structure IsName (name : String) : Prop where
  nonempty : name ≠ ""
  noSlash : '/' ∉ name.toList
  noNul : '\x00' ∉ name.toList
  notHere : name ≠ "."
  notAbove : name ≠ ".."

instance (name : String) : Decidable (IsName name) :=
  decidable_of_iff (name ≠ "" ∧ '/' ∉ name.toList ∧ '\x00' ∉ name.toList ∧ name ≠ "." ∧ name ≠ "..")
    ⟨fun ⟨hnonempty, hslash, hnul, hhere, habove⟩ => ⟨hnonempty, hslash, hnul, hhere, habove⟩,
      fun h => ⟨h.nonempty, h.noSlash, h.noNul, h.notHere, h.notAbove⟩⟩

namespace Tree

/-! ## Looking up -/

theorem entry?_of_ne_nil (t : Tree) {p : Place} (h : p ≠ []) : t.entry? p = t.entries.lookup p :=
  if_neg h

theorem entry?_concat (t : Tree) (p : Place) (name : String) :
    t.entry? (p ++ [name]) = t.entries.lookup (p ++ [name]) :=
  t.entry?_of_ne_nil (by simp)

theorem lookup_cons_place (p q : Place) (e : Entry) (entries : List (Place × Entry)) :
    ((p, e) :: entries).lookup q = if q = p then some e else entries.lookup q := by
  by_cases h : q = p
  · simp [h]
  · simp [List.lookup_cons, beq_eq_false_iff_ne.2 h, h]

theorem lookup_replace (entries : List (Place × Entry)) (p q : Place) (e : Entry) :
    (entries.map fun old => if old.1 = p then (old.1, e) else old).lookup q =
      if q = p then (entries.lookup p).map fun _ => e else entries.lookup q := by
  induction entries with
  | nil => simp
  | cons entry entries ih =>
    obtain ⟨r, old⟩ := entry
    rw [List.map_cons]
    dsimp only
    by_cases hr : r = p
    · rw [if_pos hr, lookup_cons_place, ih, hr, lookup_cons_place p p, if_pos rfl,
        lookup_cons_place]
      split_ifs <;> rfl
    · rw [if_neg hr, lookup_cons_place, ih, lookup_cons_place, lookup_cons_place,
        if_neg (Ne.symm hr)]
      by_cases hq : q = r
      · rw [if_pos hq, if_neg (hq ▸ hr), if_pos hq]
      · rw [if_neg hq, if_neg hq]

theorem lookup_put (t : Tree) (p q : Place) (e : Entry) :
    (t.put p e).entries.lookup q = if q = p then some e else t.entries.lookup q := by
  unfold put
  split
  · next hsome =>
    obtain ⟨old, hold⟩ := Option.isSome_iff_exists.1 hsome
    refine (lookup_replace t.entries p q e).trans ?_
    rw [hold]
    rfl
  · next hnone =>
    rw [List.lookup_append, lookup_cons_place, List.lookup_nil]
    by_cases hq : q = p
    · rw [if_pos hq, if_pos hq, hq, Option.not_isSome_iff_eq_none.1 hnone]
      rfl
    · simp [hq]

theorem entry?_put (t : Tree) {p : Place} (hp : p ≠ []) (q : Place) (e : Entry) :
    Tree.entry? (t.put p e) q = if q = p then some e else t.entry? q := by
  unfold entry?
  by_cases hq : q = []
  · rw [if_pos hq, if_pos hq, hq, if_neg (Ne.symm hp)]
  · rw [if_neg hq, if_neg hq, lookup_put]

theorem lookup_erase (t : Tree) (p q : Place) :
    (t.erase p).entries.lookup q = if p <+: q then none else t.entries.lookup q := by
  obtain ⟨entries⟩ := t
  change (entries.filter _).lookup q = if p <+: q then none else entries.lookup q
  induction entries with
  | nil => simp
  | cons entry entries ih =>
    obtain ⟨r, e⟩ := entry
    have hbool : (!p.isPrefixOf r) = true ↔ ¬ p <+: r := by
      rw [Bool.not_eq_true', ← Bool.not_eq_true, List.isPrefixOf_iff_prefix]
    rw [List.filter_cons]
    dsimp only
    by_cases hr : p <+: r
    · rw [if_neg (fun h => hbool.1 h hr), ih, lookup_cons_place]
      by_cases hq : q = r
      · rw [if_pos (hq ▸ hr), if_pos (hq ▸ hr)]
      · rw [if_neg hq]
    · rw [if_pos (hbool.2 hr), lookup_cons_place, ih, lookup_cons_place]
      by_cases hq : q = r
      · rw [if_pos hq, if_neg (hq ▸ hr), if_pos hq]
      · rw [if_neg hq, if_neg hq]

theorem entry?_erase (t : Tree) {p : Place} (hp : p ≠ []) (q : Place) :
    Tree.entry? (t.erase p) q = if p <+: q then none else t.entry? q := by
  unfold entry?
  by_cases hq : q = []
  · rw [if_pos hq, if_pos hq, if_neg (fun h => hp (List.prefix_nil.1 (hq ▸ h)))]
  · rw [if_neg hq, if_neg hq, lookup_erase]

/-! ## Places of a tree -/

theorem places_put (t : Tree) (p : Place) (e : Entry) : (t.put p e).entries.map Prod.fst =
    if (t.entries.lookup p).isSome then t.entries.map Prod.fst
    else t.entries.map Prod.fst ++ [p] := by
  unfold put
  split
  · rw [List.map_map]
    refine List.map_congr_left fun entry _ => ?_
    obtain ⟨q, old⟩ := entry
    dsimp only [Function.comp]
    split_ifs <;> rfl
  · rw [List.map_append]
    rfl

theorem mem_places_iff (t : Tree) (p : Place) :
    p ∈ t.entries.map Prod.fst ↔ (t.entries.lookup p).isSome = true := by
  obtain ⟨entries⟩ := t
  change p ∈ entries.map Prod.fst ↔ (entries.lookup p).isSome = true
  induction entries with
  | nil => simp
  | cons entry entries ih =>
    obtain ⟨q, e⟩ := entry
    rw [List.map_cons, List.mem_cons, lookup_cons_place, ih]
    by_cases hq : p = q
    · simp [hq]
    · simp [hq]

/-- A tree as a file system has it. -/
structure IsProper (t : Tree) : Prop where
  nodup : (t.entries.map Prod.fst).Nodup
  rooted : ∀ p, (t.entries.lookup p).isSome = true → p ≠ [] ∧ t.isDirectory p.dropLast = true
  named : ∀ p name, (t.entries.lookup (p ++ [name])).isSome = true → IsName name

/-- Whether a tree is proper can be seen from its places. -/
theorem isProper_iff (t : Tree) : t.IsProper ↔ (t.entries.map Prod.fst).Nodup ∧
    ∀ p ∈ t.entries.map Prod.fst,
      p ≠ [] ∧ t.isDirectory p.dropLast = true ∧ ∀ name ∈ p.getLast?, IsName name := by
  constructor
  · refine fun h => ⟨h.nodup, fun p hp => ?_⟩
    rw [mem_places_iff] at hp
    obtain ⟨hne, hdir⟩ := h.rooted p hp
    refine ⟨hne, hdir, fun name hname => h.named p.dropLast name ?_⟩
    rwa [List.dropLast_append_getLast? name hname]
  · rintro ⟨hnodup, hplaces⟩
    refine ⟨hnodup, fun p hp => ?_, fun p name hname => ?_⟩
    · obtain ⟨hne, hdir, -⟩ := hplaces p ((mem_places_iff t p).2 hp)
      exact ⟨hne, hdir⟩
    · obtain ⟨-, -, hnamed⟩ := hplaces _ ((mem_places_iff t _).2 hname)
      exact hnamed name List.getLast?_concat

instance (t : Tree) : Decidable t.IsProper := decidable_of_iff _ (isProper_iff t).symm

theorem isDirectory_iff (t : Tree) (p : Place) :
    t.isDirectory p = true ↔ t.entry? p = some .directory := beq_iff_eq

theorem isDirectory_put_file (t : Tree) (p : Place) (name : String) (content : List UInt8) :
    (t.put (p ++ [name]) (.file content)).isDirectory (p ++ [name]) = false := by
  rw [isDirectory, entry?_put _ (by simp), if_pos rfl]
  rfl

theorem IsProper.isDirectory_of_concat {t : Tree} (h : t.IsProper) {p : Place} {name : String}
    (hdir : t.isDirectory (p ++ [name]) = true) : t.isDirectory p = true := by
  rw [isDirectory_iff, entry?_concat] at hdir
  have := (h.rooted (p ++ [name]) (by rw [hdir]; rfl)).2
  rwa [List.dropLast_concat] at this

theorem IsProper.isDirectory_of_prefix {t : Tree} (h : t.IsProper) {p q : Place} (hpq : p <+: q)
    (hdir : t.isDirectory q = true) : t.isDirectory p = true := by
  obtain ⟨names, rfl⟩ := hpq
  induction names using List.reverseRecOn with
  | nil => rwa [List.append_nil] at hdir
  | append_singleton names name ih =>
    rw [← List.append_assoc] at hdir
    exact ih (h.isDirectory_of_concat hdir)

/-- Directories stay directories. -/
def KeepsDirectories (t u : Tree) : Prop := ∀ p, t.isDirectory p = true → u.isDirectory p = true

section Update

variable {t : Tree} {p : Place} {name : String} {e : Entry}

theorem keepsDirectories_put (hp : p ≠ []) (hold : t.isDirectory p = false) :
    KeepsDirectories t (t.put p e) := by
  intro q hq
  have hne : q ≠ p := by
    rintro rfl
    rw [hq] at hold
    contradiction
  rw [isDirectory_iff] at hq ⊢
  rw [t.entry?_put hp, if_neg hne, hq]

theorem isProper_put (h : t.IsProper) (hname : IsName name) (hparent : t.isDirectory p = true)
    (hold : t.isDirectory (p ++ [name]) = false) : (t.put (p ++ [name]) e).IsProper where
  nodup := by
    rw [places_put]
    split
    · exact h.nodup
    · next hnone =>
      refine List.nodup_append.2 ⟨h.nodup, by simp, ?_⟩
      rintro q hq r hr rfl
      rw [List.mem_singleton.1 hr, mem_places_iff] at hq
      exact hnone hq
  rooted q hq := by
    rw [lookup_put] at hq
    by_cases hqp : q = p ++ [name]
    · subst hqp
      refine ⟨by simp, ?_⟩
      rw [List.dropLast_concat]
      exact keepsDirectories_put (by simp) hold p hparent
    · rw [if_neg hqp] at hq
      exact ⟨(h.rooted q hq).1,
        keepsDirectories_put (by simp) hold _ (h.rooted q hq).2⟩
  named q other hq := by
    rw [lookup_put] at hq
    by_cases hqp : q ++ [other] = p ++ [name]
    · rw [(List.append_inj' hqp rfl).2 |> List.singleton_inj.1]
      exact hname
    · rw [if_neg hqp] at hq
      exact h.named q other hq

theorem IsProper.entry?_below (h : t.IsProper) (hold : t.isDirectory p = false)
    {q : Place} (hpq : p <+: q) (hne : q ≠ p) : t.entry? q = none := by
  obtain ⟨names, rfl⟩ := hpq
  by_contra hsome
  cases names using List.reverseRecOn with
  | nil => exact hne (List.append_nil p)
  | append_singleton names last =>
    rw [← List.append_assoc, entry?_concat] at hsome
    have hdir := (h.rooted _ (Option.isSome_iff_ne_none.2 hsome)).2
    rw [List.dropLast_concat] at hdir
    rw [h.isDirectory_of_prefix ⟨names, rfl⟩ hdir] at hold
    contradiction

theorem IsProper.entry?_erase_leaf (h : t.IsProper) (hp : p ≠ []) (hold : t.isDirectory p = false)
    (q : Place) : Tree.entry? (t.erase p) q = if q = p then none else t.entry? q := by
  rw [t.entry?_erase hp]
  by_cases hq : q = p
  · rw [if_pos (hq ▸ List.prefix_refl _), if_pos hq]
  · rw [if_neg hq]
    split
    · next hpq => exact (h.entry?_below hold hpq hq).symm
    · rfl

theorem keepsDirectories_erase (h : t.IsProper) (hp : p ≠ []) (hold : t.isDirectory p = false) :
    KeepsDirectories t (t.erase p) := by
  intro q hq
  have hne : q ≠ p := by
    rintro rfl
    rw [hq] at hold
    contradiction
  rw [isDirectory_iff] at hq ⊢
  rw [h.entry?_erase_leaf hp hold, if_neg hne, hq]

theorem isProper_erase (h : t.IsProper) (hp : p ≠ []) (hold : t.isDirectory p = false) :
    (t.erase p).IsProper where
  nodup := h.nodup.sublist (List.filter_sublist.map _)
  rooted q hq := by
    rw [lookup_erase] at hq
    split at hq
    · contradiction
    · exact ⟨(h.rooted q hq).1, keepsDirectories_erase h hp hold _ (h.rooted q hq).2⟩
  named q name hq := by
    rw [lookup_erase] at hq
    split at hq
    · contradiction
    · exact h.named q name hq

end Update

/-! ## Names in a directory -/

theorem mem_children_iff (t : Tree) (p : Place) (name : String) :
    name ∈ t.children p ↔ (t.entries.lookup (p ++ [name])).isSome = true := by
  rw [← mem_places_iff, children, List.mem_filterMap, List.mem_map]
  constructor
  · rintro ⟨⟨q, e⟩, hmem, hq⟩
    simp only [Option.ite_none_right_eq_some] at hq
    obtain ⟨⟨hparent, -⟩, hlast⟩ := hq
    exact ⟨(q, e), hmem, by rw [← hparent]; exact (List.dropLast_append_getLast? name hlast).symm⟩
  · rintro ⟨⟨q, e⟩, hmem, rfl⟩
    exact ⟨_, hmem, by simp⟩

theorem IsProper.nodup_children {t : Tree} (h : t.IsProper) (p : Place) :
    (t.children p).Nodup := by
  have hpairs := List.pairwise_map.1 h.nodup
  refine List.pairwise_filterMap.2 (hpairs.imp ?_)
  rintro ⟨q, e⟩ ⟨q', e'⟩ hne name hname name' hname' rfl
  simp only [Option.ite_none_right_eq_some] at hname hname'
  refine hne ?_
  change q = q'
  rw [← List.dropLast_append_getLast? name hname.2, ← List.dropLast_append_getLast? name hname'.2,
    hname.1.1, hname'.1.1]

/-- The name that a place has in a directory. -/
def childName? (p q : Place) : Option String := if q.dropLast = p ∧ q ≠ [] then q.getLast? else none

theorem children_eq (t : Tree) (p : Place) :
    t.children p = (t.entries.map Prod.fst).filterMap (childName? p) := by
  rw [children, List.filterMap_map]
  rfl

theorem childName?_concat (p : Place) (name : String) :
    childName? p (p ++ [name]) = some name := by simp [childName?]

theorem children_put (t : Tree) (p : Place) (name : String) (e : Entry) :
    (t.put (p ++ [name]) e).children p = t.children p ∨
      (t.put (p ++ [name]) e).children p = t.children p ++ [name] := by
  rw [children_eq, children_eq, places_put]
  split_ifs
  · exact .inl rfl
  · refine .inr ?_
    rw [List.filterMap_append, List.filterMap_cons, childName?_concat]
    rfl

end Tree

end FirmwareJobs.Files

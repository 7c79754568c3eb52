import OSExt.Libk.Strings

/-!
# Mount points

`vfs_path_contains` decides whether a path lies below a mount point, in one loop over both
strings. A path goes on behind its mount point with a slash, or it ends there. The root
mount `vfs_init` sets up is the one that has its slash already: the loop looks for another
one behind it.
-/

namespace OSExt.Vfs

open Libk

/-- `'/'` -/
abbrev slash : UInt8 := 47

/-- `rootfs.path`, two bytes of a fresh block, after `vfs_init`. -/
def rootfsPath (block : CString) : CString := Function.update (Function.update block 0 slash) 1 0

/-- The loop of `vfs_path_contains`, for as many rounds as are left up to `max`. -/
def pathContainsLoop (path1 path2 : CString) : Nat → Nat → Bool
  | 0, _ => true
  | rounds + 1, i =>
    if path1 i = 0 then
      if path2 i = 0 then true
      else false -- other string too long
    else if path2 i = 0 then
      if path1 i = slash then true else false
    else if path1 i ≠ path2 i then false
    else pathContainsLoop path1 path2 rounds (i + 1)

/-- `vfs_path_contains`: checks if path1 contains path2 -/
def vfsPathContains (path1 path2 : CString) (max : Nat) : Bool :=
  pathContainsLoop path1 path2 max 0

/-! ## Strings and paths -/

/-- The characters of a string from `i` on, up to its terminator. -/
def Text (s : CString) : Nat → List UInt8 → Prop
  | i, [] => s i = 0
  | i, c :: cs => c ≠ 0 ∧ s i = c ∧ Text s (i + 1) cs

/-- An absolute path, terminated and shorter than `max`. -/
structure IsPath (max : Nat) (s : CString) (p : List UInt8) : Prop where
  text : Text s 0 p
  short : p.length < max
  absolute : p.head? = some slash

/-- The root, or a path without a trailing slash. -/
def IsMount (m : List UInt8) : Prop := m = [slash] ∨ m.getLast? ≠ some slash

/-- `p` lies at or below `m`, component by component. -/
def Below (p m : List UInt8) : Prop := m = [slash] ∨ p = m ∨ m ++ [slash] <+: p

theorem text_rootfsPath (block : CString) : Text (rootfsPath block) 0 [slash] := by
  refine ⟨by decide, ?_, Function.update_self _ _ _⟩
  rw [rootfsPath, Function.update_of_ne Nat.zero_ne_one, Function.update_self]

/-! ## The loop -/

/-- **The loop finds** the mount point itself, or the mount point and a slash behind it. -/
theorem pathContainsLoop_iff {path1 path2 : CString} : ∀ {p m : List UInt8} {rounds i : Nat},
    Text path1 i p → Text path2 i m → p.length < rounds →
    (pathContainsLoop path1 path2 rounds i = true ↔ p = m ∨ m ++ [slash] <+: p) := by
  intro p
  induction p with
  | nil =>
      intro m rounds i hp hm hrounds
      obtain ⟨rounds, rfl⟩ := Nat.exists_add_one_eq.mpr (Nat.zero_lt_of_lt hrounds)
      have hend : path1 i = 0 := hp
      rw [pathContainsLoop, if_pos hend]
      cases m with
      | nil => rw [if_pos (show path2 i = 0 from hm)]; exact iff_of_true rfl (Or.inl rfl)
      | cons d m =>
          obtain ⟨hd, hi, -⟩ := hm
          rw [if_neg (hi ▸ hd)]
          refine iff_of_false Bool.false_ne_true fun h => ?_
          rcases h with h | h
          · exact List.cons_ne_nil _ _ h.symm
          · exact absurd (List.prefix_nil.mp h) (List.cons_ne_nil _ _)
  | cons c p ih =>
      intro m rounds i hp hm hrounds
      obtain ⟨rounds, rfl⟩ := Nat.exists_add_one_eq.mpr (Nat.zero_lt_of_lt hrounds)
      obtain ⟨hc, hpi, hp⟩ := hp
      rw [pathContainsLoop, if_neg (show path1 i ≠ 0 from hpi ▸ hc)]
      cases m with
      | nil =>
          -- the mount point has ended: the path must go on with a slash
          rw [if_pos (show path2 i = 0 from hm), hpi, List.nil_append]
          by_cases hslash : c = slash
          · rw [if_pos hslash, hslash]
            exact iff_of_true rfl (Or.inr (List.cons_prefix_cons.mpr ⟨rfl, List.nil_prefix⟩))
          · rw [if_neg hslash]
            refine iff_of_false Bool.false_ne_true fun h => ?_
            rcases h with h | h
            · exact List.cons_ne_nil _ _ h
            · exact hslash (List.cons_prefix_cons.mp h).1.symm
      | cons d m =>
          obtain ⟨hd, hmi, hm⟩ := hm
          rw [if_neg (show path2 i ≠ 0 from hmi ▸ hd), hpi, hmi]
          by_cases hsame : c = d
          · rw [if_neg (not_not_intro hsame), ih hp hm (Nat.lt_of_succ_lt_succ hrounds), hsame,
              List.cons_append, List.cons_prefix_cons, List.cons_inj_right, and_iff_right rfl]
          · rw [if_pos hsame]
            refine iff_of_false Bool.false_ne_true fun h => ?_
            rcases h with h | h
            · exact hsame (List.cons_eq_cons.mp h).1
            · exact hsame (List.cons_prefix_cons.mp h).1.symm

theorem vfsPathContains_iff {path1 path2 : CString} {p m : List UInt8} {max : Nat}
    (hp : IsPath max path1 p) (hm : IsPath max path2 m) :
    vfsPathContains path1 path2 max = true ↔ p = m ∨ m ++ [slash] <+: p :=
  pathContainsLoop_iff hp.text hm.text hp.short

/-- A mount point with no slash at its end is matched component by component. -/
theorem vfsPathContains_below {path1 path2 : CString} {p m : List UInt8} {max : Nat}
    (hp : IsPath max path1 p) (hm : IsPath max path2 m) (hroot : m ≠ [slash]) :
    vfsPathContains path1 path2 max = true ↔ Below p m := by
  rw [vfsPathContains_iff hp hm, Below, or_iff_right hroot]

/-- **The match is right** unless the mount point is the root: that one matches itself and
what goes on with a second slash, and nothing else. -/
theorem vfsPathContains_below_iff {path1 path2 : CString} {p m : List UInt8} {max : Nat}
    (hp : IsPath max path1 p) (hm : IsPath max path2 m) :
    (vfsPathContains path1 path2 max = true ↔ Below p m) ↔
      (m = [slash] → p = [slash] ∨ [slash, slash] <+: p) := by
  by_cases hroot : m = [slash]
  · subst hroot
    rw [vfsPathContains_iff hp hm]
    constructor
    · exact fun h _ => h.mpr (Or.inl rfl)
    · exact fun h => iff_of_true (h rfl) (Or.inl rfl)
  · exact iff_of_true (vfsPathContains_below hp hm hroot) fun h => absurd h hroot

theorem vfsPathContains_below_root :
    IsPath 4 (ofBytes [slash]) [slash] ∧
      ((vfsPathContains (ofBytes [slash]) (ofBytes [slash]) 4 = true ↔ Below [slash] [slash]) ↔
        ([slash] = [slash] → [slash] = [slash] ∨ [slash, slash] <+: [slash])) := by
  have hroot : IsPath 4 (ofBytes [slash]) [slash] := ⟨⟨by decide, rfl, rfl⟩, by decide, rfl⟩
  exact ⟨hroot, vfsPathContains_below_iff hroot hroot⟩

/-- The root mount of `vfs_init` does not contain `/a`. -/
theorem rootMount_notMatched :
    ¬ ∀ (path1 path2 : CString) (p m : List UInt8) (max : Nat), IsPath max path1 p →
      IsPath max path2 m → IsMount m → (vfsPathContains path1 path2 max = true ↔ Below p m) := by
  intro h
  have hfile : IsPath 100 (ofBytes [slash, 97]) [slash, 97] :=
    ⟨⟨by decide, rfl, by decide, rfl, rfl⟩, by decide, rfl⟩
  have hroot : IsPath 100 (rootfsPath (ofBytes [])) [slash] :=
    ⟨text_rootfsPath _, by decide, rfl⟩
  have hmatch := (h _ _ _ _ 100 hfile hroot (Or.inl rfl)).mpr (Or.inl rfl)
  rcases (vfsPathContains_iff hfile hroot).mp hmatch with heq | hprefix
  · exact absurd heq (by decide)
  · exact absurd hprefix (by decide)

end OSExt.Vfs

import Haisos.Filesystem.Stack
import Haisos.ProcessFileIO

/-!
# Filesystems below a directory of another one

`SubFileSystem.cpp`: every operation is passed on with its path resolved below the
base path.  Confinement rests on the normalization alone, which never climbs above
the root.
-/

namespace Haisos.Filesystem

open Hsh (Text text)

variable {ω δ : Type*}

/-- `ResolveInRoot` of the filesystem made with this base path. -/
def resolveInRoot (basePath path : Text) : Text :=
  let base := normalizeVirtualPath basePath
  let normalized := normalizeVirtualPath path
  if base = ['/'] then normalized
  else if normalized = ['/'] then base
  else base ++ normalized

def subFileSystem (root : Operations ω (OpenFile δ)) (basePath : Text) :
    LocalOperations ω (OpenFile δ) where
  openFile now pathname flags mode store :=
    root.openFile now (resolveInRoot basePath pathname) flags mode store
  createDirectory now pathname mode store :=
    root.createDirectory now (resolveInRoot basePath pathname) mode store
  removeDirectory now pathname store :=
    root.removeDirectory now (resolveInRoot basePath pathname) store
  removeFile now pathname store := root.removeFile now (resolveInRoot basePath pathname) store
  readDirectory path store := root.readDirectory (resolveInRoot basePath path) store
  stat path store := root.stat (resolveInRoot basePath path) store
  isBuiltinCommand path store := root.isBuiltinCommand (resolveInRoot basePath path) store
  absolutePathFor path := normalizeVirtualPath path

/-! ## One path after another -/

/-- Which segments there are does not hang on whether a climb was held back. -/
theorem appendSegmentsFrom_segments (segment path : Text) (segments : List Text) (a b : Bool) :
    (appendSegmentsFrom segment path segments a).1 =
      (appendSegmentsFrom segment path segments b).1 := by
  have hend : ∀ (segment : Text) (segments : List Text) (a b : Bool),
      (endSegment segments a segment).1 = (endSegment segments b segment).1 := by
    intro segment segments a b
    unfold endSegment
    split_ifs <;> rfl
  induction path generalizing segment segments a b with
  | nil => exact hend segment segments a b
  | cons c rest ih =>
      rw [appendSegmentsFrom, appendSegmentsFrom]
      split_ifs
      · simp only [hend segment segments a b]
        exact ih [] _ _ _
      · exact ih _ segments a b

theorem appendVirtualPathSegments_render {p : List Text} (hp : AreSegments p) :
    (appendVirtualPathSegments (render p) []).1 = p := by
  simpa [virtualSegments, head?_render] using virtualSegments_render hp []

theorem virtualSegments_relative {path : Text} (h : path.head? ≠ some '/') {p : List Text}
    (hp : AreSegments p) :
    virtualSegments path (render p) = (appendSegmentsFrom [] path p true).1 := by
  rw [virtualSegments, if_neg h, appendVirtualPathSegments_render hp, appendVirtualPathSegments]

theorem virtualSegments_joined {q p : Text} (hq : q ≠ []) (hp : p.head? ≠ some '/')
    (base : Text) :
    virtualSegments (q ++ '/' :: p) base =
      virtualSegments p (render (virtualSegments q base)) := by
  have hhead : (q ++ '/' :: p).head? = q.head? := by
    cases q with
    | nil => exact absurd rfl hq
    | cons c q => rfl
  rw [virtualSegments_relative hp (virtualSegments_areSegments q base), virtualSegments,
    virtualSegments, hhead, appendVirtualPathSegments, appendSegmentsFrom_slash]
  exact appendSegmentsFrom_segments [] p _ _ _

theorem normalizeVirtualPath_joined {q p : Text} (hq : q ≠ []) (hp : p.head? ≠ some '/')
    (base : Text) :
    normalizeVirtualPath (q ++ '/' :: p) base =
      normalizeVirtualPath p (normalizeVirtualPath q base) := by
  rw [normalizeVirtualPath, virtualSegments_joined hq hp]
  rfl

theorem normalizeVirtualPath_normalized (path base base' : Text) :
    normalizeVirtualPath (normalizeVirtualPath path base) base' =
      normalizeVirtualPath path base :=
  normalizeVirtualPath_render (virtualSegments_areSegments path base) base'

/-! ## Below the base path -/

theorem resolveInRoot_eq (basePath path : Text) :
    resolveInRoot basePath path =
      render (virtualSegments basePath ['/'] ++ virtualSegments path ['/']) := by
  have hbase := virtualSegments_areSegments basePath ['/']
  have hpath := virtualSegments_areSegments path ['/']
  simp only [resolveInRoot, normalizeVirtualPath, render_eq_slash hbase, render_eq_slash hpath]
  split_ifs with hroot hself
  · simp [hroot]
  · simp [hself]
  · rw [render_of_ne_nil hroot, render_of_ne_nil hself, render_of_ne_nil (by simp [hroot]),
      joinSegments_append]

theorem virtualSegments_resolveInRoot (basePath path base : Text) :
    virtualSegments (resolveInRoot basePath path) base =
      virtualSegments basePath ['/'] ++ virtualSegments path ['/'] := by
  rw [resolveInRoot_eq]
  exact virtualSegments_render ((virtualSegments_areSegments basePath ['/']).append
    (virtualSegments_areSegments path ['/'])) base

theorem virtualSegments_joined_normalized (a b : Text) :
    virtualSegments (normalizeVirtualPath a ++ '/' :: normalizeVirtualPath b) ['/'] =
      virtualSegments a ['/'] ++ virtualSegments b ['/'] := by
  have ha := virtualSegments_areSegments a ['/']
  have hb := virtualSegments_areSegments b ['/']
  have hfrom : (appendSegmentsFrom [] (normalizeVirtualPath a) [] true).1 =
      virtualSegments a ['/'] := appendVirtualPathSegments_render ha
  have hhead : (normalizeVirtualPath a ++ '/' :: normalizeVirtualPath b).head? = some '/' := by
    rw [List.head?_append, normalizeVirtualPath, head?_render]
    rfl
  rw [virtualSegments, if_pos hhead, appendVirtualPathSegments, appendSegmentsFrom_slash, hfrom,
    normalizeVirtualPath]
  rcases eq_or_ne (virtualSegments b ['/']) [] with hnil | hne
  · simp [hnil, appendSegmentsFrom, endSegment]
  · rw [render_of_ne_nil hne, appendSegmentsFrom_join _ hb]
    simp [endSegment]

theorem resolveInRoot_resolveInRoot (a b path : Text) :
    resolveInRoot a (resolveInRoot b path) =
      resolveInRoot (normalizeVirtualPath a ++ '/' :: normalizeVirtualPath b) path := by
  simp only [resolveInRoot_eq a, resolveInRoot_eq (normalizeVirtualPath a ++ _),
    virtualSegments_resolveInRoot, virtualSegments_joined_normalized, List.append_assoc]

theorem isAtOrUnder_resolveInRoot (basePath path : Text) :
    MountPoints.isAtOrUnder (resolveInRoot basePath path) (normalizeVirtualPath basePath) =
      true := by
  have hbase := virtualSegments_areSegments basePath ['/']
  have hpath := virtualSegments_areSegments path ['/']
  rw [resolveInRoot_eq, normalizeVirtualPath,
    MountPoints.isAtOrUnder_iff (hbase.append hpath) hbase]
  exact List.prefix_append _ _

theorem relativeToBase_resolveInRoot (basePath path : Text) :
    relativeToBase (normalizeVirtualPath basePath) (resolveInRoot basePath path) =
      some (normalizeVirtualPath path) := by
  rw [resolveInRoot_eq]
  exact relativeToBase_append (virtualSegments_areSegments basePath ['/'])
    (virtualSegments_areSegments path ['/'])

/-! ## One below another -/

theorem bare_subFileSystem (root : Operations ω (OpenFile δ)) (a b : Text) :
    bare (subFileSystem (bare (subFileSystem root a)) b) =
      bare (subFileSystem root (normalizeVirtualPath a ++ '/' :: normalizeVirtualPath b)) := by
  have hpath := resolveInRoot_resolveInRoot a b
  have hext : ∀ f g : Operations ω (OpenFile δ), f.openFile = g.openFile →
      f.createDirectory = g.createDirectory → f.removeDirectory = g.removeDirectory →
      f.removeFile = g.removeFile → f.readDirectory = g.readDirectory → f.stat = g.stat →
      f.isBuiltinCommand = g.isBuiltinCommand → f = g := by
    intro f g h₁ h₂ h₃ h₄ h₅ h₆ h₇
    cases f
    cases g
    simp_all
  apply hext
  · funext now path flags mode store
    simp [subFileSystem, hpath]
  · funext now path mode store
    simp [subFileSystem, hpath]
  · funext now path store
    simp [subFileSystem, hpath]
  · funext now path store
    simp [subFileSystem, hpath]
  · funext path store
    rw [bare_readDirectory, bare_readDirectory]
    simp only [subFileSystem, bare_readDirectory, bare_stat, hpath]
    exact dotsFirst_dotsFirst _ _
  · funext path store
    simp [subFileSystem, hpath]
  · funext path store
    simp [subFileSystem, hpath]

/-! ## Changing directory -/

theorem resolvePath_changeDirectory {D : Type} {ω : Type} (root : RootFileSystem ω D)
    (files : ProcessFiles ω D) {q p : Text} {target : NormalizedPath} (hq : q ≠ [])
    (hp : p.head? ≠ some '/') (htarget : files.directoryAt root q = some target) :
    (files.changeDirectory root q).resolvePath p = files.resolvePath (q ++ '/' :: p) := by
  have hnormalized : target.1 = normalizeVirtualPath q files.workingDirectory.1 := by
    simp only [ProcessFiles.directoryAt] at htarget
    split_ifs at htarget
    cases htarget
    rfl
  simp only [ProcessFiles.changeDirectory, htarget, ProcessFiles.resolvePath]
  rw [hnormalized, normalizeVirtualPath_joined hq hp]

/-- Paths cannot escape, and compose as changing directory does. -/
theorem paths_confined (p q b : Text) :
    (∃ segments, AreSegments segments ∧ normalizeVirtualPath p b = render segments) ∧
    (∀ base, normalizeVirtualPath (normalizeVirtualPath p b) base = normalizeVirtualPath p b) ∧
    (q ≠ [] → p.head? ≠ some '/' →
      normalizeVirtualPath p (normalizeVirtualPath q b) =
          normalizeVirtualPath (q ++ '/' :: p) b ∧
        ∀ (ω D : Type) (root : RootFileSystem ω D) (files : ProcessFiles ω D),
          (files.directoryAt root q).isSome →
            (files.changeDirectory root q).resolvePath p =
              files.resolvePath (q ++ '/' :: p)) ∧
    MountPoints.isAtOrUnder (resolveInRoot b p) (normalizeVirtualPath b) = true ∧
    relativeToBase (normalizeVirtualPath b) (resolveInRoot b p) =
      some (normalizeVirtualPath p) ∧
    (∀ a, resolveInRoot a (resolveInRoot b p) =
      resolveInRoot (normalizeVirtualPath a ++ '/' :: normalizeVirtualPath b) p) ∧
    ∀ (a : Text) (ω δ : Type) (root : Operations ω (OpenFile δ)),
      bare (subFileSystem (bare (subFileSystem root a)) b) =
        bare (subFileSystem root (normalizeVirtualPath a ++ '/' :: normalizeVirtualPath b)) := by
  refine ⟨⟨_, virtualSegments_areSegments p b, rfl⟩, normalizeVirtualPath_normalized p b,
    fun hq hp => ⟨(normalizeVirtualPath_joined hq hp b).symm, ?_⟩,
    isAtOrUnder_resolveInRoot b p, relativeToBase_resolveInRoot b p, ?_, ?_⟩
  · intro ω D root files hsome
    obtain ⟨target, htarget⟩ := Option.isSome_iff_exists.1 hsome
    exact resolvePath_changeDirectory root files hq hp htarget
  · intro a
    exact resolveInRoot_resolveInRoot a b p
  · intro a ω δ root
    exact bare_subFileSystem root a b

def directoriesOnly : RootFileSystem Unit Empty where
  openFile _ _ outside := (none, outside)
  stat _ _ := some .dir
  readDirectory _ _ := []
  createPipe _ outside := (none, outside)
  write descriptor _ _ := descriptor.elim

theorem paths_confined_climb :
    normalizeVirtualPath (text "../x") (normalizeVirtualPath (text "a/./..//b") (text "/c")) =
        normalizeVirtualPath (text "a/./..//b/../x") (text "/c") ∧
      (({ outside := () } : ProcessFiles Unit Empty).changeDirectory directoriesOnly
          (text "a/./..//b")).resolvePath (text "../x") =
        ({ outside := () } : ProcessFiles Unit Empty).resolvePath (text "a/./..//b/../x") := by
  have h := (paths_confined (text "../x") (text "a/./..//b") (text "/c")).2.2.1
    (by simp [text]) (by simp [text])
  exact ⟨h.1, h.2 Unit Empty directoriesOnly { outside := () }
    (by simp [ProcessFiles.directoryAt, directoriesOnly])⟩

end Haisos.Filesystem

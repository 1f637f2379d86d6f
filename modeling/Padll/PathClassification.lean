import Padll.LdPreloadedRuns

/-! Classification of paths: the subtree of the remote mount point against the search that
looks for the mount point anywhere in a path. -/
namespace Padll
variable {opts : Options}

/-- The mount point itself, or what follows it after a slash. -/
def InSubtree (mountPoint path : Path) : Prop :=
  path = mountPoint ∨ mountPoint ++ ['/'] <+: path

instance (mountPoint path : Path) : Decidable (InSubtree mountPoint path) := instDecidableOr

/-- An absolute path without empty, `.` or `..` components. -/
def IsCanonical (path : Path) : Prop :=
  path.head? = some '/' ∧ ∀ component ∈ path.tail.splitOn '/',
    component ≠ [] ∧ component ≠ ['.'] ∧ component ≠ ['.', '.']

/-- A path is remote, and finds a workflow in every table, exactly in the subtree. -/
def ClassifiesSubtree (opts : Options) (path : Path) : Prop :=
  (MountPointTable.extractMountPoint opts path = .kRemote ↔
    InSubtree opts.defaultRemoteMountPoint path) ∧
  ∀ t : MountPointTable opts,
    (t.pickWorkflowIdPath path).1.2 ≠ noWorkflow ↔ InSubtree opts.defaultRemoteMountPoint path

/-- A sibling directory whose name begins with that of the mount point is taken for remote. -/
theorem sibling_taken_for_remote :
    ¬ ∀ path, IsCanonical path → ClassifiesSubtree (Options.shipped .single) path := by
  intro h
  have hcanonical : IsCanonical "/tmpfoo/x".toList := ⟨rfl, by decide⟩
  have hsubtree := (h _ hcanonical).1.mp (by decide)
  revert hsubtree
  decide

/-- A path that goes on after the mount point does so with a slash. -/
def EndsComponent (mountPoint path : Path) : Prop :=
  ∀ c rest, path = mountPoint ++ c :: rest → c = '/'

/-- Where the mount point occurs in a path, the path begins with it. -/
def OccursFirst (mountPoint path : Path) : Prop :=
  mountPoint <:+: path → mountPoint <+: path

/-- The search for the mount point finds its subtree exactly in the paths in which it occurs
at the beginning and as whole components. -/
theorem infix_iff_inSubtree (mountPoint path : Path) :
    (mountPoint <:+: path ↔ InSubtree mountPoint path) ↔
      EndsComponent mountPoint path ∧ OccursFirst mountPoint path := by
  constructor
  · intro h
    refine ⟨?_, fun hinfix => ?_⟩
    · rintro c rest rfl
      rcases h.mp (List.prefix_append mountPoint (c :: rest)).isInfix with hself | hslash
      · simp at hself
      · have hfirst := (List.prefix_append_right_inj mountPoint).mp hslash
        exact (List.cons_prefix_cons.mp hfirst).1.symm
    · rcases h.mp hinfix with hself | hslash
      · rw [hself]
      · exact (List.prefix_append mountPoint ['/']).trans hslash
  · rintro ⟨hends, hfirst⟩
    constructor
    · intro hinfix
      obtain ⟨rest, rfl⟩ := hfirst hinfix
      cases rest with
      | nil => exact .inl (List.append_nil mountPoint)
      | cons c rest =>
        obtain rfl := hends c rest rfl
        refine .inr ((List.prefix_append_right_inj mountPoint).mpr ?_)
        exact List.cons_prefix_cons.mpr ⟨rfl, List.nil_prefix⟩
    · rintro (hself | hslash)
      · rw [hself]
      · exact ((List.prefix_append mountPoint ['/']).trans hslash).isInfix

/-- With differentiation on, a path is classified by the subtree of the remote mount point
exactly if the mount point occurs in it at the beginning alone and as whole components, and
workflows are chosen by mount point or there is none to choose. -/
theorem classifiesSubtree_iff (hdiff : opts.mountPointDifferentiationEnabled = true)
    (path : Path) :
    ClassifiesSubtree opts path ↔
      (EndsComponent opts.defaultRemoteMountPoint path ∧
        OccursFirst opts.defaultRemoteMountPoint path) ∧
      (opts.selectWorkflowByMetadataUnit = false ∨
        ¬ InSubtree opts.defaultRemoteMountPoint path) := by
  have hextract : MountPointTable.extractMountPoint opts path = .kRemote ↔
      opts.defaultRemoteMountPoint <:+: path := by
    rw [MountPointTable.extractMountPoint_kRemote_iff, and_iff_right hdiff]
  have hpick : ∀ t : MountPointTable opts, (t.pickWorkflowIdPath path).1.2 ≠ noWorkflow ↔
      opts.selectWorkflowByMetadataUnit = false ∧ opts.defaultRemoteMountPoint <:+: path := by
    intro t
    rw [t.pickWorkflowIdPath_ne, Options.enforces_iff hdiff, hextract]
  rw [ClassifiesSubtree, hextract, ← infix_iff_inSubtree]
  refine and_congr_right fun hsubtree => ?_
  simp only [hpick, hsubtree]
  constructor
  · intro h
    by_cases hin : InSubtree opts.defaultRemoteMountPoint path
    · exact .inl ((h { prng := fun _ => 0 }).mpr hin).1
    · exact .inr hin
  · rintro (hselect | hout) t
    · exact and_iff_right hselect
    · exact iff_of_false (fun h => hout h.2) hout

theorem classifiesSubtree_iff_child :
    ClassifiesSubtree (Options.shipped .single) "/tmp/x".toList := by
  refine (classifiesSubtree_iff rfl _).mpr ⟨⟨?_, fun _ => by decide⟩, .inl rfl⟩
  intro c rest h
  have hrest : ['/', 'x'] = c :: rest :=
    List.append_cancel_left (show "/tmp".toList ++ ['/', 'x'] = "/tmp".toList ++ c :: rest from h)
  exact (List.cons.inj hrest).1.symm

end Padll

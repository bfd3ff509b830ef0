import RowBlock.Proofs.Outputs

set_option autoImplicit false

/-! # Files that are written

What is written to a file in the job's directory is read back from the same path (`Files.read_of_write`).
Writing makes no directory go away, so the path leads where it led before (`Files.locate_put`), and it
makes none under the name of the file. Where one rank alone writes, the files at the end of a run are
those at the start with its contents put in one after another (`Run.files_written`).
-/

namespace RowBlock

namespace Files

variable {files files' : Files} {path part : String} {names : List String} {content : Content}
  {bytes : List UInt8}

/-! ## Putting a file

Files are listed by name. To put one in replaces the one of that name or adds it, and no directory
comes or goes. -/

theorem lookup_map_self {entries : List (List String × Content)}
    (hold : (entries.lookup names).isSome) :
    (entries.map fun (other, old) => (other, if other = names then content else old)).lookup names
      = some content := by
  induction entries with
  | nil => cases hold
  | cons entry entries ih =>
      obtain ⟨other, old⟩ := entry
      by_cases heq : names = other
      · subst heq
        simp
      · have hbeq : (names == other) = false := by simp [heq]
        rw [List.lookup_cons, hbeq] at hold
        rw [List.map_cons, List.lookup_cons, hbeq]
        exact ih hold

theorem get?_put (files : Files) (names : List String) (content : Content) :
    (files.put names content).get? names = some content := by
  unfold put get?
  split
  · rename_i hold
    exact lookup_map_self hold
  · rename_i hold
    have hnone : files.entries.lookup names = none := Option.not_isSome_iff_eq_none.mp hold
    rw [List.lookup_append, hnone]
    simp

theorem names_put (files : Files) (names : List String) (content : Content) :
    (files.put names content).entries.map Prod.fst = files.entries.map Prod.fst ∨
      (files.put names content).entries.map Prod.fst = files.entries.map Prod.fst ++ [names] := by
  unfold put
  split
  · exact .inl (by simp [Function.comp_def])
  · exact .inr (by simp)

theorem hasDirectory_eq (files : Files) (names : List String) : files.hasDirectory names
    = (files.entries.map Prod.fst).any
      fun other => names.isPrefixOf other && decide (names.length < other.length) := by
  rw [hasDirectory, List.any_map]
  rfl

/-- Directories stay when a file is put in. -/
theorem hasDirectory_put {directory : List String} (h : files.hasDirectory directory = true) :
    (files.put names content).hasDirectory directory = true := by
  rw [hasDirectory_eq] at h ⊢
  rcases files.names_put names content with heq | heq <;> rw [heq]
  · exact h
  · rw [List.any_append, h, Bool.true_or]

theorem hasDirectory_put_self (files : Files) (names : List String) (content : Content) :
    (files.put names content).hasDirectory names = files.hasDirectory names := by
  rw [hasDirectory_eq, hasDirectory_eq]
  rcases files.names_put names content with heq | heq <;> rw [heq]
  rw [List.any_append]
  simp

/-! ## Paths after a file is put in

A path is walked one name at a time through directories. As these stay the same, the walk does, and
only the last name may stand for something else. -/

theorem entry_put {directory next : Directory} (h : files.entry directory part = .directory next) :
    (files.put names content).entry directory part = .directory next := by
  unfold entry at h ⊢
  split at h
  · rwa [if_pos ‹_›]
  · rw [if_neg ‹_›]
    split at h
    · rwa [if_pos ‹_›]
    · rw [if_neg ‹_›]
      cases directory with
      | outside => cases h
      | inside dir =>
          simp only at h ⊢
          split at h
          · rwa [if_pos (hasDirectory_put ‹_›)]
          · split at h <;> cases h

theorem walk_put {directory last : Directory} {parts : List String}
    (h : files.walk path directory parts = .ok last) :
    (files.put names content).walk path directory parts = .ok last := by
  induction parts generalizing directory with
  | nil => exact h
  | cons part parts ih =>
      unfold walk step at h ⊢
      split
      · rename_i hlong
        rw [if_pos hlong] at h
        cases h
      · rename_i hshort
        rw [if_neg hshort] at h
        cases hentry : files.entry directory part with
        | file content => simp [hentry, bind, Except.bind, throw, throwThe, MonadExceptOf.throw] at h
        | nothing => simp [hentry, bind, Except.bind, throw, throwThe, MonadExceptOf.throw] at h
        | directory next =>
            simp only [hentry, bind, Except.bind] at h
            simp only [entry_put hentry, bind, Except.bind]
            exact ih h

/-- **A path leads on where it led** when a file is put in. -/
theorem locate_put {found : Directory × String} (h : files.locate path = .ok found) :
    (files.put names content).locate path = .ok found := by
  unfold locate at h ⊢
  cases hcheck : checkPath path with
  | error e =>
      rw [hcheck] at h
      cases h
  | ok u =>
      rw [hcheck] at h
      simp only [bind, Except.bind] at h ⊢
      cases hwalk : files.walk path (.start path) (Path.parts path).dropLast with
      | error e =>
          rw [hwalk] at h
          cases h
      | ok last =>
          rw [hwalk] at h
          rw [walk_put hwalk]
          exact h

/-! ## Reading what was written

Dots at the end of a path are resolved before a file is made or read, which is why a name with no
directory under it cannot be dots. -/

/-- A name under which there is no directory is no dots. -/
theorem of_entry_ne_directory (h : ∀ d, files.entry (.inside names) part ≠ .directory d) :
    part ≠ "." ∧ part ≠ ".." ∧ files.hasDirectory (names ++ [part]) = false := by
  have hdot : part ≠ "." := by
    rintro rfl
    exact h _ rfl
  have hdots : part ≠ ".." := by
    rintro rfl
    exact h _ rfl
  refine ⟨hdot, hdots, Bool.eq_false_iff.mpr fun hdirectory => ?_⟩
  exact h (.inside (names ++ [part])) (by simp [entry, hdot, hdots, hdirectory])

/-- **Making a file** in the job's directory puts it in under a name that is no directory's. -/
theorem create_cases (hlocate : files.locate path = .ok (.inside names, part))
    (hcreate : files.create path content = .ok files') :
    Path.endsInSlash path = false ∧ ¬Path.maxPartBytes < part.utf8ByteSize ∧
      (∀ d, files.entry (.inside names) part ≠ .directory d) ∧
      files' = files.put (names ++ [part]) content := by
  unfold create at hcreate
  rw [hlocate] at hcreate
  simp only [bind, Except.bind, step] at hcreate
  split at hcreate
  · cases hcreate
  · rename_i hslash
    by_cases hlong : Path.maxPartBytes < part.utf8ByteSize
    · rw [if_pos hlong] at hcreate
      cases hcreate
    · rw [if_neg hlong] at hcreate
      cases hentry : files.entry (.inside names) part with
      | directory d =>
          rw [hentry] at hcreate
          cases hcreate
      | file old =>
          rw [hentry] at hcreate
          cases hcreate
          exact ⟨Bool.eq_false_iff.mpr hslash, hlong, nofun, rfl⟩
      | nothing =>
          rw [hentry] at hcreate
          cases hcreate
          exact ⟨Bool.eq_false_iff.mpr hslash, hlong, nofun, rfl⟩

/-- **What is made is read.** -/
theorem read_of_create (hlocate : files.locate path = .ok (.inside names, part))
    (hcreate : files.create path (.bytes bytes) = .ok files') : files'.read path = .ok bytes := by
  obtain ⟨hslash, hshort, hentry, rfl⟩ := create_cases hlocate hcreate
  obtain ⟨hdot, hdots, hfree⟩ := of_entry_ne_directory hentry
  have hnew : (files.put (names ++ [part]) (.bytes bytes)).hasDirectory (names ++ [part]) = false := by
    rw [hasDirectory_put_self, hfree]
  unfold read
  rw [locate_put hlocate]
  simp only [bind, Except.bind, step, if_neg hshort, entry, if_neg hdot, if_neg hdots, hnew, get?_put,
    hslash, Bool.false_eq_true, if_false]
  rfl

/-- **What is written is read** from the same path, if it leads to the job's directory. -/
theorem read_of_write (hlocate : files.locate path = .ok (.inside names, part))
    (hwrite : files.write path (.bytes bytes) = .ok files') : files'.read path = .ok bytes := by
  refine read_of_create hlocate ?_
  simp only [write, createTable] at hwrite
  split at hwrite
  · exact hwrite
  · cases hwrite
  · cases hwrite

/-- **A file that can be written**: it lies in the job's directory, and any bytes can be put there. -/
structure IsWritable (files : Files) (path : String) : Prop where
  inside : ∃ names part, files.locate path = .ok (.inside names, part)
  written : ∀ bytes, ∃ files', files.write path (.bytes bytes) = .ok files'

def keep (files : Files) (path : String) (content : Content) : Files :=
  match files.write path content with
  | .ok files => files
  | .error _ => files

theorem IsWritable.read_keep (h : files.IsWritable path) (bytes : List UInt8) :
    (files.keep path (.bytes bytes)).read path = .ok bytes := by
  obtain ⟨names, part, hlocate⟩ := h.inside
  obtain ⟨files', hwrite⟩ := h.written bytes
  rw [keep, hwrite]
  exact read_of_write hlocate hwrite

end Files

/-! ## Files in runs

What is written in a run by one rank alone, in the order in which it was written, is all that
changes the files. The later of two contents of one file is the one that stays. -/

def Event.written? : Event → Option (String × Content)
  | ⟨.write path content, _⟩ => some (path, content)
  | _ => none

namespace History

def written (h : History) : List (String × Content) := h.filterMap Event.written?

@[simp]
theorem written_append (h g : History) : written (h ++ g) = written h ++ written g :=
  List.filterMap_append

/-- Without any writing nothing is written. -/
theorem written_eq_nil {h : History} (hnone : ∀ e ∈ h, e.request.isWrite = false) :
    h.written = [] := by
  apply List.filterMap_eq_nil_iff.mpr
  rintro ⟨r, answer⟩ he
  have hr := hnone _ he
  cases r <;> first | rfl | cases hr

end History

/-- The files with everything that a history has written put in. -/
def Files.after (files : Files) (h : History) : Files :=
  h.written.foldl (fun files (path, content) => files.keep path content) files

theorem Files.after_append (files : Files) (h g : History) :
    files.after (h ++ g) = (files.after h).after g := by
  simp [after]

/-- **What a request does to the files.** -/
theorem Host.serve_after {h host : Host} {rank : Nat} {r : Request} {answer : r.Answer}
    (hserve : h.serve rank r = (.answered answer, host)) :
    host.files = h.files.after [⟨r, answer⟩] := by
  cases r with
  | write path content =>
      have hkeep : h.files.after [⟨.write path content, answer⟩] = h.files.keep path content := rfl
      simp only [serve] at hserve
      split at hserve <;> rename_i hwrite <;> cases hserve <;> rw [hkeep, Files.keep, hwrite]
  | _ => exact Host.serve_files rfl hserve

theorem Files.after_add (files : Files) (h : History) (e : Event) :
    files.after (h.add e) = (files.after h).after [e] := by
  unfold History.add
  split
  · rename_i hquiet
    rcases e with ⟨r, answer⟩
    cases r <;> first | rfl | cases hquiet
  · exact Files.after_append files h [e]

variable {z : Hazards} {s t : Ensemble} {ms : List Move} {rank : Nat}

/-- **Where one rank alone writes**, the files are those at the start with all that it has written. -/
theorem Run.files_written (hrun : Run z s ms t)
    (hothers : ∀ r ≠ rank, ∀ e ∈ historyOf ms r, e.request.isWrite = false) :
    t.host.files = s.host.files.after (historyOf ms rank) := by
  induction hrun with
  | refl => rfl
  | @step ms t u m hrun hstep ih =>
      have hfiles := ih fun r hr e he => hothers r hr e (mem_historyOf_append [m] he)
      rcases hstep.cases_outputs with ⟨r, e, rfl, hserve⟩ | ⟨hsame, -, hsteady⟩
      · rw [historyOf_act]
        split
        · rw [Files.after_add, ← hfiles]
          exact Host.serve_after hserve
        · rename_i hr
          rw [← hfiles]
          exact Host.serve_files (isWrite_of_historyOf (hothers r hr)) hserve
      · rw [hsame, hsteady.1, hfiles]

end RowBlock

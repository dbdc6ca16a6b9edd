/-
  ServiceSchema.Proofs.Writing — what writing a file does to a disk.

  The directories above the file are made one by one, each where nothing was
  (`FoldersMade`), so they are all that is new (`Grows`). Then the file goes through a
  temporary one in its own directory. If that can be moved, the disk is as if the file had
  been put in its place. If not, the temporary file is all that is new besides, and it is
  there only while the fault that holds it is.

  - `makeFolders_spec`: only directories are made, and they lead to where they should.
  - `makeFolders_of_isDir`: where all of them are, nothing is made.
  - `writeFile_cases`: the three ways in which writing a file ends.
  - `writeFile_eq_ok`: exactly when a file is written, and the disk afterwards.
-/
import ServiceSchema.Proofs.Following

namespace ServiceSchema.Disk

open Fallible

variable {d d' : Disk} {place folder : Place} {name path : String} {pieces steps : List String}

/-! ## Refused paths -/

theorem utf8ByteSize_intercalate_le (pieces : List String) (name : String) :
    ("/".intercalate pieces).utf8ByteSize ≤ ("/".intercalate (pieces ++ [name])).utf8ByteSize := by
  induction pieces with
  | nil => exact Nat.zero_le _
  | cons first rest ih =>
    cases rest with
    | nil =>
      rw [List.singleton_append, String.intercalate_cons_cons, String.intercalate_singleton,
        String.intercalate_singleton, String.utf8ByteSize_append, String.utf8ByteSize_append]
      omega
    | cons second rest =>
      rw [List.cons_append] at ih ⊢
      rw [List.cons_append, String.intercalate_cons_cons, String.intercalate_cons_cons,
        String.utf8ByteSize_append, String.utf8ByteSize_append, String.utf8ByteSize_append,
        String.utf8ByteSize_append]
      omega

/-- No part of a path that may be followed is refused. -/
theorem refusal?_front (h : refusal? (pieces ++ [name]) = none) : refusal? pieces = none := by
  unfold refusal? at h ⊢
  have hle := utf8ByteSize_intercalate_le pieces name
  split at h
  · cases h
  · rename_i hnul
    split at h
    · cases h
    · rw [List.any_append, Bool.or_eq_true, not_or] at hnul
      rw [if_neg hnul.1, if_neg (by omega)]

theorem slot_eq_ok {found : Option Node} : d.slot pieces name = .ok (place, found) ↔
    refusal? (pieces ++ [name]) = none ∧ ∃ folder, d.placeOf pieces = .ok folder ∧
      d.kind? folder = some .dir ∧ name.utf8ByteSize ≤ maxName ∧ place = folder ++ [name] ∧
      found = d.get? (folder ++ [name]) := by
  unfold slot
  cases refusal? (pieces ++ [name]) with
  | some cause => simp [bind, Except.bind]
  | none =>
    cases hp : d.placeOf pieces with
    | error cause => simp [bind, Except.bind]
    | ok folder =>
      simp only [bind, Except.bind, Except.ok.injEq, true_and, exists_eq_left']
      by_cases hk : d.kind? folder = some .dir
      · obtain ⟨entries, he⟩ := kind?_eq_dir.1 hk
        rw [he, get?_below he]
        by_cases hlong : maxName < name.utf8ByteSize
        · simp [hlong, Nat.not_le.2 hlong]
        · simp [hlong, Nat.not_lt.1 hlong, hk, eq_comm]
      · constructor
        · intro h
          split at h
          · rename_i entries he
            exact absurd (kind?_eq_dir.2 ⟨entries, he⟩) hk
          · cases h
        · intro h
          exact absurd h.1 hk

/-! ## Disks with more on them -/

/-- What leads to a place still does when there is more on the disk. -/
theorem Leads.mono {target : Target} {links : Nat} {last : Place}
    (h : Leads d target links place pieces last)
    (hmore : ∀ p k, d.kind? p = some k → d'.kind? p = some k) :
    Leads d' target links place pieces last :=
  h.transfer (fun p => hmore p _) (fun p _ => hmore p _) fun content hc => ⟨content, hmore _ _ hc⟩

/-- What is put where nothing was hides nothing. -/
theorem more_of_put {new : Option Kind} (hput : ∀ p, d'.kind? p = if p = place then new else d.kind? p)
    (hnone : d.kind? place = none) (p : Place) (k : Kind) (hk : d.kind? p = some k) :
    d'.kind? p = some k := by
  rw [hput p, if_neg (fun heq => by rw [heq, hnone] at hk; cases hk), hk]

theorem placeOf_mono (hmore : ∀ p k, d.kind? p = some k → d'.kind? p = some k)
    (h : d.placeOf pieces = .ok place) : d'.placeOf pieces = .ok place := by
  obtain ⟨hallowed, hleads⟩ := placeOf_eq_ok.1 h
  exact placeOf_eq_ok.2 ⟨hallowed, hleads.mono hmore⟩

/-- All that was there is there, and what is new are directories that the steps lead through. -/
def Grows (d d' : Disk) (steps : List String) : Prop :=
  ∀ place, d'.kind? place = d.kind? place ∨
    d.kind? place = none ∧ d'.kind? place = some .dir ∧
      ∃ front, front <+: steps ∧ d'.placeOf front = .ok place

theorem Grows.more (h : Grows d d' steps) (p : Place) (k : Kind) (hk : d.kind? p = some k) :
    d'.kind? p = some k := by
  rcases h p with heq | ⟨hnone, -⟩
  · rw [heq, hk]
  · rw [hnone] at hk
    cases hk

/-- Nothing but directories is new. -/
theorem Grows.kind?_iff (h : Grows d d' steps) {p : Place} {k : Kind} (hk : k ≠ .dir) :
    d'.kind? p = some k ↔ d.kind? p = some k := by
  refine ⟨fun hd' => ?_, h.more p k⟩
  rcases h p with heq | ⟨-, hdir, -⟩
  · rw [← heq, hd']
  · rw [hdir] at hd'
    exact absurd (Option.some.inj hd').symm hk

theorem kind?_put_folder (h : d.kind? folder = some .dir) (hnone : d.kind? (folder ++ [name]) = none)
    (p : Place) : (d.put (folder ++ [name]) (.dir [])).kind? p =
      if p = folder ++ [name] then some .dir else d.kind? p := by
  refine kind?_put h (by rw [hnone]; simp) (fun rest hrest => ?_) p
  cases rest with
  | nil => exact absurd rfl hrest
  | cons first more => rfl

theorem kind?_put_file {content : ByteArray} (h : d.kind? folder = some .dir)
    (hold : d.kind? (folder ++ [name]) ≠ some .dir) (p : Place) :
    (d.put (folder ++ [name]) (.file content)).kind? p =
      if p = folder ++ [name] then some (.file content) else d.kind? p := by
  refine kind?_put h hold (fun rest hrest => ?_) p
  cases rest with
  | nil => exact absurd rfl hrest
  | cons first more => rfl

/-! ## Making directories -/

/-- Directories are made one after another, each in one that is there and under a name that
    nothing has, on the way that the steps lead. -/
inductive FoldersMade (steps : List String) (d : Disk) : Disk → Prop
  | none : FoldersMade steps d d
  | more {made : Disk} {folder : Place} {name : String} {front : List String} :
      FoldersMade steps d made → made.kind? folder = some .dir → made.kind? (folder ++ [name]) = none →
      front <+: steps → (made.put (folder ++ [name]) (.dir [])).placeOf front = .ok (folder ++ [name]) →
      FoldersMade steps d (made.put (folder ++ [name]) (.dir []))

theorem FoldersMade.weaken {steps' : List String} (h : FoldersMade steps d d') (hs : steps <+: steps') :
    FoldersMade steps' d d' := by
  induction h with
  | none => exact .none
  | more _ hd hn hf hp ih => exact .more ih hd hn (hf.trans hs) hp

theorem FoldersMade.grows (h : FoldersMade steps d d') : Grows d d' steps := by
  induction h with
  | none => exact fun place => .inl rfl
  | @more made folder name front _ hd hn hf hp ih =>
    have hput := kind?_put_folder hd hn
    intro place
    by_cases hplace : place = folder ++ [name]
    · subst hplace
      refine .inr ⟨?_, by rw [hput, if_pos rfl], front, hf, hp⟩
      rcases ih (folder ++ [name]) with heq | ⟨hnone, -⟩
      · rw [← heq, hn]
      · exact hnone
    · rw [hput, if_neg hplace]
      rcases ih place with heq | ⟨hnone, hdir, front', hf', hp'⟩
      · exact .inl heq
      · exact .inr ⟨hnone, hdir, front', hf', placeOf_mono (more_of_put hput hn) hp'⟩

/-- One directory is made in the one that the outer steps lead to. -/
theorem of_makeFolder_eq_ok {outer : List String} (hname : name ≠ "" ∧ name ≠ ".")
    (h : d.makeFolder (name :: outer) = .ok d') :
    FoldersMade (name :: outer).reverse d d' ∧ d'.isDir (name :: outer).reverse = true := by
  obtain ⟨⟨place, found⟩, hslot, h⟩ := bind_eq_ok.1 h
  obtain ⟨hallowed, folder, hplace, hdir, hshort, rfl, rfl⟩ := slot_eq_ok.1 hslot
  dsimp only at h
  split at h
  · cases h
  · rename_i hfree
    cases h
    rw [Bool.or_eq_true, decide_eq_true_eq, not_or, Bool.not_eq_true, Option.isSome_eq_false_iff,
      Option.isNone_iff_eq_none] at hfree
    have hnone : d.kind? (folder ++ [name]) = none := by rw [kind?, hfree.2]; rfl
    have hput := kind?_put_folder hdir hnone
    have hleads : Leads (d.put (folder ++ [name]) (.dir [])) .followed maxLinks [] outer.reverse folder :=
      (placeOf_eq_ok.1 hplace).2.mono (more_of_put hput hnone)
    have hthere : (d.put (folder ++ [name]) (.dir [])).placeOf (name :: outer).reverse =
        .ok (folder ++ [name]) := by
      rw [List.reverse_cons, placeOf_eq_ok]
      have hname : IsName name := ⟨hname.1, hname.2, hfree.1, hshort⟩
      refine ⟨hallowed, hleads.extend ?_ hname (by rw [hput, if_pos rfl]) (by simp)⟩
      rw [hput, if_neg (by simp), hdir]
    exact ⟨.more .none hdir hnone (List.prefix_refl _) hthere,
      isDir_iff.2 ⟨_, hthere, by rw [hput, if_pos rfl]⟩⟩

theorem FoldersMade.trans {d'' : Disk} (h : FoldersMade steps d d') (h' : FoldersMade steps d' d'') :
    FoldersMade steps d d'' := by
  induction h' with
  | none => exact h
  | more _ hd hn hf hp ih => exact .more ih hd hn hf hp

theorem eq_true_of_ite_eq_ok {there : Bool} {cause : Cause}
    (h : (if there = true then .ok () else .error cause : Except Cause Unit) = .ok ()) : there = true := by
  cases there
  · cases h
  · rfl

/-- Only directories are made on the way to a directory, also when making it fails; and when
    it does not fail the directory is there. -/
theorem makeFolders_spec {names : List String} (hnames : ∀ name ∈ names, name ≠ "" ∧ name ≠ ".") :
    FoldersMade names.reverse d (d.makeFolders names).1 ∧
      ((d.makeFolders names).2 = .ok () → (d.makeFolders names).1.isDir names.reverse = true) := by
  induction names with
  | nil => exact ⟨.none, fun _ => isDir_iff.2 ⟨[], placeOf_eq_ok.2 ⟨rfl, .done _ _⟩, kind?_nil _⟩⟩
  | cons name outer ih =>
    rw [List.forall_mem_cons] at hnames
    have houter : outer.reverse <+: (name :: outer).reverse := by
      rw [List.reverse_cons]
      exact List.prefix_append _ _
    obtain ⟨hmade, -⟩ := ih hnames.2
    have hmade := hmade.weaken houter
    unfold makeFolders
    split
    · -- the directory could be made at once
      rename_i d' h
      obtain ⟨h, hdir⟩ := of_makeFolder_eq_ok hnames.1 h
      exact ⟨h, fun _ => hdir⟩
    · -- those above it had to be made first
      split
      · rename_i d' cause h
        rw [h] at hmade
        exact ⟨hmade, fun hok => by cases hok⟩
      · rename_i d' h
        rw [h] at hmade
        split
        · rename_i d'' h
          obtain ⟨h, hdir⟩ := of_makeFolder_eq_ok hnames.1 h
          exact ⟨hmade.trans h, fun _ => hdir⟩
        · exact ⟨hmade, eq_true_of_ite_eq_ok⟩
    · exact ⟨.none, eq_true_of_ite_eq_ok⟩

/-- Where a directory is, nothing is made on the way to it. -/
theorem makeFolders_of_isDir {names : List String} (hnames : ∀ name ∈ names, name ≠ "" ∧ name ≠ ".")
    (h : d.isDir names.reverse = true) : d.makeFolders names = (d, .ok ()) := by
  cases names with
  | nil => rfl
  | cons name outer =>
    obtain ⟨place, hplace, -⟩ := isDir_iff.1 h
    rw [List.reverse_cons, placeOf_eq_ok] at hplace
    obtain ⟨hallowed, hleads⟩ := hplace
    obtain ⟨folder, links, houter, hlast⟩ := hleads.split
    have hname := hnames name List.mem_cons_self
    have hthere : d.kind? folder = some .dir ∧ name.utf8ByteSize ≤ maxName ∧
        (name = ".." ∨ (d.get? (folder ++ [name])).isSome = true) := by
      cases hlast with
      | stay hd hs => rcases hs with hs | hs <;> simp [hs] at hname
      | up hd => exact ⟨hd, by decide, .inl rfl⟩
      | enter hd hp hk => exact ⟨hd, hp.short, .inr (by simpa [kind?] using congrArg Option.isSome hk)⟩
      | link hd hp hk => exact ⟨hd, hp.short, .inr (by simpa [kind?] using congrArg Option.isSome hk)⟩
      | named _ _ _ ht => cases ht
    have hslot : d.slot outer.reverse name = .ok (folder ++ [name], d.get? (folder ++ [name])) :=
      slot_eq_ok.2 ⟨hallowed, folder, placeOf_eq_ok.2 ⟨refusal?_front hallowed, houter⟩, hthere.1,
        hthere.2.1, rfl, rfl⟩
    have hexists : d.makeFolder (name :: outer) = .error .alreadyExists := by
      rw [makeFolder, hslot, ok_bind]
      simp [hthere.2.2]
    simp only [makeFolders, hexists, h, if_true]

/-! ## Moving a file to its place -/

/-- A path names a place for a file: an entry of a directory that is no directory itself. -/
structure Takes (d : Disk) (path : String) (folder : Place) (name : String) : Prop where
  noNul : '\x00' ∉ path.toList
  last : (Path.pieces path).getLast? = some name
  isName : IsName name
  allowed : refusal? (Path.pieces path) = none
  leads : Leads d .followed maxLinks [] (Path.pieces path).dropLast folder
  isFolder : d.kind? folder = some .dir
  free : d.kind? (folder ++ [name]) ≠ some .dir

theorem Takes.pieces_eq (h : Takes d path folder name) :
    Path.pieces path = (Path.pieces path).dropLast ++ [name] := by
  obtain ⟨outer, houter⟩ := List.getLast?_eq_some_iff.1 h.last
  rw [houter, List.dropLast_concat]

theorem Takes.slot_eq (h : Takes d path folder name) :
    d.slot (Path.pieces path).dropLast name = .ok (folder ++ [name], d.get? (folder ++ [name])) := by
  have hallowed := h.allowed
  rw [h.pieces_eq] at hallowed
  exact slot_eq_ok.2 ⟨hallowed, folder, placeOf_eq_ok.2 ⟨refusal?_front hallowed, h.leads⟩, h.isFolder,
    h.isName.short, rfl, rfl⟩

/-- Where a path does not end in a slash, its last piece is the name. -/
theorem eq_concat_of_dropWhile {pieces outer : List String}
    (hdrop : pieces.reverse.dropWhile (· = "") = name :: outer) (hslash : pieces.reverse.head? ≠ some "") :
    pieces = outer.reverse ++ [name] ∧ name ≠ "" := by
  have hrev : pieces.reverse = name :: outer := by
    rw [← hdrop]
    cases hr : pieces.reverse with
    | nil => rfl
    | cons last rest =>
      rw [hr, List.head?_cons, ne_eq, Option.some.injEq] at hslash
      rw [List.dropWhile_cons_of_neg (by simpa using hslash)]
  constructor
  · rw [← List.reverse_reverse pieces, hrev, List.reverse_cons]
  · rw [hrev, List.head?_cons, ne_eq, Option.some.injEq] at hslash
    exact hslash

/-- A file is moved exactly if the path names a place for it. -/
theorem moveFile_eq_ok {source : Place} : d.moveFile source path = .ok d' ↔
    ∃ folder name, Takes d path folder name ∧ d' = d.move source (folder ++ [name]) := by
  unfold moveFile
  by_cases hnul : '\x00' ∈ path.toList
  · rw [if_pos (List.contains_iff_mem.2 hnul)]
    constructor
    · intro h; cases h
    · intro h
      obtain ⟨_, _, ht, -⟩ := h
      exact absurd hnul ht.noNul
  rw [if_neg (fun h => hnul (List.contains_iff_mem.1 h))]
  dsimp only
  constructor
  · intro h
    split at h
    · cases h
    · rename_i name outer hdrop
      obtain ⟨⟨place, found⟩, hslot, h⟩ := bind_eq_ok.1 h
      obtain ⟨hallowed, folder, hplace, hdir, hshort, rfl, rfl⟩ := slot_eq_ok.1 hslot
      dsimp only at h
      split at h
      · cases h
      · rename_i hdots
        split at h
        · cases h
        · rename_i hslash
          obtain ⟨hpieces, hnonempty⟩ := eq_concat_of_dropWhile hdrop hslash
          have hfree : d.kind? (folder ++ [name]) ≠ some .dir ∧ d' = d.move source (folder ++ [name]) := by
            split at h
            · cases h
            · rename_i hfound
              cases h
              refine ⟨fun hk => ?_, rfl⟩
              obtain ⟨entries, hk⟩ := kind?_eq_dir.1 hk
              exact hfound entries hk
          rw [Bool.or_eq_true, decide_eq_true_eq, decide_eq_true_eq, not_or] at hdots
          have hname : IsName name := ⟨hnonempty, hdots.1, hdots.2, hshort⟩
          refine ⟨folder, name, ⟨hnul, ?_, hname, ?_, ?_, hdir, hfree.1⟩, hfree.2⟩
          · rw [hpieces, List.getLast?_concat]
          · rw [hpieces, hallowed]
          · rw [hpieces, List.dropLast_concat]
            exact (placeOf_eq_ok.1 hplace).2
  · intro h
    obtain ⟨folder, name, ht, rfl⟩ := h
    have hrev : (Path.pieces path).reverse = name :: (Path.pieces path).dropLast.reverse := by
      rw [← List.reverse_concat, ← ht.pieces_eq]
    rw [hrev, List.dropWhile_cons_of_neg (by simpa using ht.isName.nonempty)]
    dsimp only
    rw [List.reverse_reverse, ht.slot_eq, ok_bind]
    simp only [ht.isName.notDot, ht.isName.notDots, ht.isName.nonempty, List.head?_cons, Option.some.injEq,
      decide_false, Bool.or_self, Bool.false_eq_true, if_false]
    split
    · rename_i entries hk
      exact absurd (kind?_eq_dir.2 ⟨entries, hk⟩) ht.free
    · rfl

/-! ## Through a temporary file -/

section Temporary

variable {temporary : String} {content : ByteArray}

/-- A new file in a directory stands in the way of no path. -/
theorem takes_put_iff {outer : Place} (hdir : d.kind? outer = some .dir)
    (hnew : d.kind? (outer ++ [temporary]) = none) :
    Takes (d.put (outer ++ [temporary]) (.file content)) path folder name ↔ Takes d path folder name := by
  have hput : ∀ p, (d.put (outer ++ [temporary]) (.file content)).kind? p =
      if p = outer ++ [temporary] then some (.file content) else d.kind? p :=
    kind?_put_file hdir (by rw [hnew]; simp)
  have hmore := more_of_put hput hnew
  have hless : ∀ p k, (∀ content, k ≠ .file content) →
      (d.put (outer ++ [temporary]) (.file content)).kind? p = some k → d.kind? p = some k := by
    intro p k hk hd
    rw [hput p] at hd
    split at hd
    · exact absurd (Option.some.inj hd).symm (hk content)
    · exact hd
  constructor
  · intro h
    refine ⟨h.noNul, h.last, h.isName, h.allowed, ?_, hless _ _ (by simp) h.isFolder,
      fun hk => h.free (hmore _ _ hk)⟩
    refine h.leads.transfer (fun p => hless p _ (by simp)) (fun p _ => hless p _ (by simp)) fun c hc => ?_
    rw [h.isFolder] at hc
    cases hc
  · intro h
    exact ⟨h.noNul, h.last, h.isName, h.allowed, h.leads.mono hmore, hmore _ _ h.isFolder,
      fun hk => h.free (hless _ _ (by simp) hk)⟩

theorem addTemporary_eq_ok {c : Conditions} {added : Place × Disk} :
    d.addTemporary c pieces = .ok added ↔ c.refuses .temporary = none ∧
      ("/".intercalate pieces).utf8ByteSize + 1 + temporaryBytes ≤ maxPath ∧
      ∃ outer entries, d.placeOf pieces = .ok outer ∧ d.get? outer = some (.dir entries) ∧
        added = (outer ++ [c.pick (entries.map Prod.fst)],
          d.put (outer ++ [c.pick (entries.map Prod.fst)]) (.file .empty)) := by
  unfold addTemporary
  cases c.refuses .temporary with
  | some cause => simp [bind, Except.bind]
  | none =>
    by_cases hroom : ("/".intercalate pieces).utf8ByteSize + 1 + temporaryBytes ≤ maxPath
    · cases hplace : d.placeOf pieces with
      | error cause => simp [bind, Except.bind, Nat.not_lt.2 hroom]
      | ok outer =>
        simp only [bind, Except.bind, if_neg (Nat.not_lt.2 hroom), Except.ok.injEq, exists_and_left,
          exists_eq_left', hroom, true_and]
        constructor
        · intro h
          split at h
          · rename_i entries hentries
            exact ⟨entries, hentries, (Except.ok.inj h).symm⟩
          · cases h
        · intro h
          obtain ⟨entries, hentries, rfl⟩ := h
          simp only [hentries]
    · simp [bind, Except.bind, Nat.not_le.1 hroom, hroom]

/-- The path of a temporary file beside the file is not too long. -/
def HasRoom (path : String) : Prop :=
  ("/".intercalate (Path.steps path).dropLast).utf8ByteSize + 1 + temporaryBytes ≤ maxPath

/-- Names on the way to a file are neither empty nor a dot. -/
theorem steps_dropLast_reverse (path : String) :
    ∀ name ∈ (Path.steps path).dropLast.reverse, name ≠ "" ∧ name ≠ "." := by
  intro name h
  have hmem := List.dropLast_subset _ (List.mem_reverse.1 h)
  simpa using (List.mem_filter.1 hmem).2

/-- The directory that a path takes a file to is the one that its steps lead to. -/
theorem Takes.placeOf_eq {outer : Place} (h : Takes d path folder name)
    (houter : d.placeOf (Path.steps path).dropLast = .ok outer) : outer = folder := by
  have hsteps : (Path.steps path).dropLast =
      (Path.pieces path).dropLast.filter fun piece => piece ≠ "" ∧ piece ≠ "." := by
    rw [Path.steps, h.pieces_eq, List.filter_append,
      List.filter_cons_of_pos (by simpa using ⟨h.isName.nonempty, h.isName.notDot⟩), List.filter_nil,
      List.dropLast_concat, List.dropLast_concat]
  have hfolder := (h.leads.trim (trimmed_filter _)).follow
  rw [hsteps, placeOf_eq_ok] at houter
  rw [houter.2.follow] at hfolder
  exact Except.ok.inj hfolder

/-- A file is moved away from an unused name exactly if its path names a place for it on the
    disk without it, and then it might as well have been put there at once. -/
theorem moveFile_put_eq_ok {outer : Place} {entries : List (String × Node)}
    (houter : d.placeOf (Path.steps path).dropLast = .ok outer)
    (hentries : d.get? outer = some (.dir entries)) (hunused : temporary ∉ entries.map Prod.fst) :
    (d.put (outer ++ [temporary]) (.file content)).moveFile (outer ++ [temporary]) path = .ok d' ↔
      ∃ folder name, Takes d path folder name ∧ d' = d.put (folder ++ [name]) (.file content) := by
  have hnew : d.kind? (outer ++ [temporary]) = none := by
    rw [kind?_below hentries, lookup_eq_none_of_notMem hunused, Option.map_none]
  rw [moveFile_eq_ok]
  simp only [takes_put_iff (kind?_eq_dir.2 ⟨entries, hentries⟩) hnew]
  constructor
  · intro h
    obtain ⟨folder, name, htakes, rfl⟩ := h
    obtain rfl := htakes.placeOf_eq houter
    exact ⟨outer, name, htakes, move_put hentries hunused name content⟩
  · intro h
    obtain ⟨folder, name, htakes, rfl⟩ := h
    obtain rfl := htakes.placeOf_eq houter
    exact ⟨outer, name, htakes, (move_put hentries hunused name content).symm⟩

theorem makeWay_spec (d : Disk) (c : Conditions) (path : String) :
    FoldersMade (Path.steps path).dropLast d (d.makeWay c (Path.steps path).dropLast).1 := by
  have hnames := steps_dropLast_reverse path
  unfold makeWay
  cases c.refuses .folder with
  | none =>
    have hmade := (makeFolders_spec (d := d) hnames).1
    rwa [List.reverse_reverse] at hmade
  | some cause =>
    -- what is made before the refusal is the beginning of the way
    have hfront : ∀ name ∈ ((Path.steps path).dropLast.take c.reach).reverse, name ≠ "" ∧ name ≠ "." :=
      fun name hname => hnames name (List.mem_reverse.2 (List.mem_of_mem_take (List.mem_reverse.1 hname)))
    have hmade := (makeFolders_spec (d := d) hfront).1
    rw [List.reverse_reverse] at hmade
    exact hmade.weaken (List.take_prefix _ _)

theorem makeWay_eq_ok {c : Conditions} {made : Disk} : d.makeWay c steps = (made, .ok ()) ↔
    c.refuses .folder = none ∧ d.makeFolders steps.reverse = (made, .ok ()) := by
  unfold makeWay
  cases c.refuses .folder <;> simp

theorem persist_eq_ok {c : Conditions} {source : Place} : d.persist c source path = .ok d' ↔
    c.refuses .replace = none ∧ d.moveFile source path = .ok d' := by
  unfold persist
  cases c.refuses .replace <;> simp

/-- A file is held at a place: it was put there, in a directory, under a name that nothing had. -/
def Held (d d' : Disk) (held : Place) (content : ByteArray) : Prop :=
  ∃ outer name entries, held = outer ++ [name] ∧ d.get? outer = some (.dir entries) ∧
    name ∉ entries.map Prod.fst ∧ d' = d.put held (.file content)

theorem Held.erase {held : Place} (h : Held d d' held content) : d'.erase held = d := by
  obtain ⟨outer, name, entries, rfl, hentries, hunused, rfl⟩ := h
  exact erase_put hentries hunused _

theorem Held.kind?_eq_none {held : Place} (h : Held d d' held content) : d.kind? held = none := by
  obtain ⟨outer, name, entries, rfl, hentries, hunused, -⟩ := h
  rw [kind?_below hentries, lookup_eq_none_of_notMem hunused, Option.map_none]

theorem Held.kind?_eq {held : Place} (h : Held d d' held content) (p : Place) :
    d'.kind? p = if p = held then some (.file content) else d.kind? p := by
  have hnone := h.kind?_eq_none
  obtain ⟨outer, name, entries, rfl, hentries, -, rfl⟩ := h
  exact kind?_put_file (kind?_eq_dir.2 ⟨entries, hentries⟩) (by rw [hnone]; simp) p

/-- The file is there, where the path takes it, and nothing stood in the way of writing it. -/
structure Written (d : Disk) (c : Conditions) (path : String) (content : ByteArray)
    (made : Disk) (folder : Place) (name : String) (d' : Disk) : Prop where
  allowed : ∀ step, c.refuses step = none
  way : d.makeFolders (Path.steps path).dropLast.reverse = (made, .ok ())
  room : HasRoom path
  takes : Takes made path folder name
  disk : d' = made.put (folder ++ [name]) (.file content)

/-- Once the temporary file has its content, all depends on whether it can be moved. -/
theorem writeFile_eq {c : Conditions} {made : Disk} {outer : Place} {entries : List (String × Node)}
    (hway : d.makeWay c (Path.steps path).dropLast = (made, .ok ()))
    (hadd : made.addTemporary c (Path.steps path).dropLast =
      .ok (outer ++ [temporary], made.put (outer ++ [temporary]) (.file .empty)))
    (hentries : made.get? outer = some (.dir entries)) (hcontent : c.refuses .content = none)
    (hpermissions : c.refuses .permissions = none) :
    d.writeFile c path content =
      match (made.put (outer ++ [temporary]) (.file content)).persist c (outer ++ [temporary]) path with
      | .ok d' => (d', .ok ())
      | .error cause => (made.put (outer ++ [temporary]) (.file content),
          .error (.replace cause (outer ++ [temporary]))) := by
  cases hpersist : (made.put (outer ++ [temporary]) (.file content)).persist c (outer ++ [temporary]) path <;>
    simp only [writeFile, hway, hadd, hcontent, hpermissions, put_put hentries, hpersist]

/-- A file that is not written leaves the directories that were made, or those and a file that
    the fault holds; one that is written is where its path takes it. -/
theorem writeFile_cases (d : Disk) (c : Conditions) (path : String) (content : ByteArray) :
    (∃ made fault, FoldersMade (Path.steps path).dropLast d made ∧ fault.held? = none ∧
      d.writeFile c path content = (made, .error fault)) ∨
    (∃ made d' cause held, FoldersMade (Path.steps path).dropLast d made ∧
      Held made d' held content ∧ d.writeFile c path content = (d', .error (.replace cause held))) ∨
    ∃ made folder name d', Written d c path content made folder name d' ∧
      d.writeFile c path content = (d', .ok ()) := by
  have hmade := makeWay_spec d c path
  cases hway : d.makeWay c (Path.steps path).dropLast with
  | mk made result =>
  rw [hway] at hmade
  cases result with
  | error cause => exact .inl ⟨made, .folder cause, hmade, rfl, by simp only [writeFile, hway]⟩
  | ok _ =>
  cases hadd : made.addTemporary c (Path.steps path).dropLast with
  | error cause => exact .inl ⟨made, .temporary cause, hmade, rfl, by simp only [writeFile, hway, hadd]⟩
  | ok added =>
  obtain ⟨htemporary, hroom, outer, entries, houter, hentries, rfl⟩ := addTemporary_eq_ok.1 hadd
  have hunused := c.unused (entries.map Prod.fst)
  have hgone : ∀ new, (made.put (outer ++ [c.pick (entries.map Prod.fst)]) new).erase
      (outer ++ [c.pick (entries.map Prod.fst)]) = made := erase_put hentries hunused
  cases hcontent : c.refuses .content with
  | some cause =>
    exact .inl ⟨made, .content cause, hmade, rfl, by simp only [writeFile, hway, hadd, hcontent, hgone]⟩
  | none =>
  cases hpermissions : c.refuses .permissions with
  | some cause =>
    exact .inl ⟨made, .permissions cause, hmade, rfl, by
      simp only [writeFile, hway, hadd, hcontent, hpermissions, put_put hentries, hgone]⟩
  | none =>
  rw [writeFile_eq hway hadd hentries hcontent hpermissions]
  cases hmove : (made.put (outer ++ [c.pick (entries.map Prod.fst)]) (.file content)).persist c
      (outer ++ [c.pick (entries.map Prod.fst)]) path with
  | error cause =>
    exact .inr (.inl ⟨made, _, cause, _, hmade, ⟨outer, _, entries, rfl, hentries, hunused, rfl⟩, rfl⟩)
  | ok d' =>
    obtain ⟨hreplace, hmove⟩ := persist_eq_ok.1 hmove
    obtain ⟨hfolder, hway⟩ := makeWay_eq_ok.1 hway
    obtain ⟨folder, name, htakes, rfl⟩ := (moveFile_put_eq_ok houter hentries hunused).1 hmove
    refine .inr (.inr ⟨made, folder, name, _, ⟨fun step => ?_, hway, hroom, htakes, rfl⟩, rfl⟩)
    cases step <;> assumption

/-- A file is written exactly if nothing is refused, its directory is there or can be made, its
    temporary name is not too long, and its path names a place for it. Then it is put there. -/
theorem writeFile_eq_ok {c : Conditions} : d.writeFile c path content = (d', .ok ()) ↔
    ∃ made folder name, Written d c path content made folder name d' := by
  constructor
  · intro h
    rcases writeFile_cases d c path content with ⟨_, _, -, -, heq⟩ | ⟨_, _, _, _, -, -, heq⟩ |
      ⟨made, folder, name, _, hwritten, heq⟩
    · rw [heq] at h
      cases congrArg Prod.snd h
    · rw [heq] at h
      cases congrArg Prod.snd h
    · rw [heq] at h
      cases h
      exact ⟨made, folder, name, hwritten⟩
  · intro h
    obtain ⟨made, folder, name, hwritten⟩ := h
    have hdir := (makeFolders_spec (d := d) (steps_dropLast_reverse path)).2 (by rw [hwritten.way])
    rw [hwritten.way, List.reverse_reverse] at hdir
    obtain ⟨outer, houter, hkind⟩ := isDir_iff.1 hdir
    obtain ⟨entries, hentries⟩ := kind?_eq_dir.1 hkind
    have hway := makeWay_eq_ok.2 ⟨hwritten.allowed .folder, hwritten.way⟩
    have hadd : made.addTemporary c (Path.steps path).dropLast = _ :=
      addTemporary_eq_ok.2 ⟨hwritten.allowed .temporary, hwritten.room, outer, entries, houter, hentries, rfl⟩
    have hmove := persist_eq_ok.2 ⟨hwritten.allowed .replace,
      (moveFile_put_eq_ok houter hentries (c.unused (entries.map Prod.fst))).2
        ⟨folder, name, hwritten.takes, hwritten.disk⟩⟩
    rw [writeFile_eq hway hadd hentries (hwritten.allowed _) (hwritten.allowed _), hmove]

end Temporary

end ServiceSchema.Disk

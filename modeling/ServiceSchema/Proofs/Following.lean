/-
  ServiceSchema.Proofs.Following — where a path leads.

  A path that leads somewhere does so by steps of five kinds (`Disk.Leads`): it stays in a
  directory, leaves it, enters what a name stands for, follows a link, or ends at one. All
  that counts on the way is that directories and links are what they are, so a path leads
  to the same place on a disk that has them all (`Leads.transfer`).

  - `Disk.follow_eq_ok`: what is followed to the end is what leads there.
  - `Leads.split`, `Leads.extend`: a path leads on from where its front leads.
  - `Leads.extend_or_cut`: the same for a file that takes its place on the way. Unless the
    path went through a link at that very place, it leads to the new file.
  - `Disk.readText_eq_ok`: what is read is in the file that the path leads to.
-/
import ServiceSchema.Proofs.Fallible
import ServiceSchema.Proofs.Places

namespace ServiceSchema.Disk

/-- A piece that names an entry of a directory. -/
structure IsName (piece : String) : Prop where
  nonempty : piece ≠ ""
  notDot : piece ≠ "."
  notDots : piece ≠ ".."
  short : piece.utf8ByteSize ≤ maxName

theorem isName_iff (piece : String) :
    IsName piece ↔ piece ≠ "" ∧ piece ≠ "." ∧ piece ≠ ".." ∧ piece.utf8ByteSize ≤ maxName :=
  ⟨fun h => ⟨h.nonempty, h.notDot, h.notDots, h.short⟩, fun h => ⟨h.1, h.2.1, h.2.2.1, h.2.2.2⟩⟩

instance (piece : String) : Decidable (IsName piece) := decidable_of_iff' _ (isName_iff piece)

theorem IsName.not_blank {piece : String} (h : IsName piece) : ¬ (piece = "" ∨ piece = ".") := by
  rw [not_or]
  exact ⟨h.nonempty, h.notDot⟩

variable {d d' : Disk} {target : Target} {links : Nat} {place last : Place} {piece : String}
  {pieces rest : List String}

/-! ## One step -/

theorem follow_nil (d : Disk) (target : Target) (links : Nat) (place : Place) :
    d.follow target links place [] = .ok place := by
  cases links <;> rfl

/-- Nothing is entered but directories. -/
theorem follow_notDirectory (h : d.kind? place ≠ some .dir) :
    d.follow target links place (piece :: rest) = .error .notDirectory := by
  have hwith : ∀ jump, d.followWith target jump place (piece :: rest) = .error .notDirectory := by
    intro jump
    rw [followWith]
    split
    · rename_i entries hd
      exact absurd (kind?_eq_dir.2 ⟨entries, hd⟩) h
    · rfl
  cases links <;> exact hwith _

theorem follow_stay (h : d.kind? place = some .dir) (hp : piece = "" ∨ piece = ".") :
    d.follow target links place (piece :: rest) = d.follow target links place rest := by
  obtain ⟨entries, h⟩ := kind?_eq_dir.1 h
  cases links <;> rcases hp with rfl | rfl <;> simp [follow, followWith, h]

theorem follow_up (h : d.kind? place = some .dir) :
    d.follow target links place (".." :: rest) = d.follow target links place.dropLast rest := by
  obtain ⟨entries, h⟩ := kind?_eq_dir.1 h
  cases links <;> simp [follow, followWith, h]

theorem follow_long (h : d.kind? place = some .dir) (hlong : maxName < piece.utf8ByteSize) :
    d.follow target links place (piece :: rest) = .error .nameTooLong := by
  obtain ⟨entries, h⟩ := kind?_eq_dir.1 h
  have hne : ∀ short : String, short.utf8ByteSize ≤ maxName → piece ≠ short := by
    intro short hs heq
    rw [heq] at hlong
    omega
  cases links <;>
    simp [follow, followWith, h, hlong, hne "" (by decide), hne "." (by decide), hne ".." (by decide)]

theorem followWith_name {jump : Place → List String → Except Cause Place} (h : d.kind? place = some .dir)
    (hp : IsName piece) :
    d.followWith target jump place (piece :: rest) =
      match d.kind? (place ++ [piece]) with
      | none => if rest.isEmpty && target = .fresh then .ok (place ++ [piece]) else .error .notFound
      | some (.link path) =>
        if rest.isEmpty && target = .named then .ok (place ++ [piece])
        else jump (if Path.isAbsolute path then [] else place) (Path.pieces path ++ rest)
      | some _ => d.followWith target jump (place ++ [piece]) rest := by
  obtain ⟨entries, h⟩ := kind?_eq_dir.1 h
  rw [followWith, h, kind?_below h]
  have hshort : ¬ maxName < piece.utf8ByteSize := Nat.not_lt.2 hp.short
  simp only [hp.nonempty, hp.notDot, hp.notDots, hshort, decide_false, Bool.or_self, Bool.false_eq_true,
    if_false]
  cases entries.lookup piece with
  | none => rfl
  | some n => cases n <;> rfl

/-- What a name leads to, by what stands there. -/
theorem follow_name (h : d.kind? place = some .dir) (hp : IsName piece) :
    d.follow target links place (piece :: rest) =
      match d.kind? (place ++ [piece]) with
      | none => if rest.isEmpty && target = .fresh then .ok (place ++ [piece]) else .error .notFound
      | some (.link path) =>
        if rest.isEmpty && target = .named then .ok (place ++ [piece])
        else
          match links with
          | 0 => .error .tooManyLinks
          | links + 1 =>
            d.follow target links (if Path.isAbsolute path then [] else place) (Path.pieces path ++ rest)
      | some _ => d.follow target links (place ++ [piece]) rest := by
  cases links with
  | zero => exact followWith_name h hp
  | succ links => exact followWith_name h hp

theorem follow_enter {k : Kind} (h : d.kind? place = some .dir) (hp : IsName piece)
    (hk : d.kind? (place ++ [piece]) = some k) (hlink : ∀ path, k ≠ .link path) :
    d.follow target links place (piece :: rest) = d.follow target links (place ++ [piece]) rest := by
  rw [follow_name h hp, hk]
  cases k with
  | file content => rfl
  | dir => rfl
  | link path => exact absurd rfl (hlink path)

theorem follow_link {path : String} (h : d.kind? place = some .dir) (hp : IsName piece)
    (hk : d.kind? (place ++ [piece]) = some (.link path)) (hend : ¬ (rest = [] ∧ target = .named)) :
    d.follow target (links + 1) place (piece :: rest) =
      d.follow target links (if Path.isAbsolute path then [] else place) (Path.pieces path ++ rest) := by
  rw [follow_name h hp, hk]
  simp [hend]

/-! ## All steps -/

/-- Pieces lead from a place to another one, with so many links to spare. The last name has
    to be there. -/
inductive Leads (d : Disk) (target : Target) : Nat → Place → List String → Place → Prop
  | done (links : Nat) (place : Place) : Leads d target links place [] place
  | stay {links : Nat} {place last : Place} {piece : String} {rest : List String} :
      d.kind? place = some .dir → (piece = "" ∨ piece = ".") →
      Leads d target links place rest last → Leads d target links place (piece :: rest) last
  | up {links : Nat} {place last : Place} {rest : List String} : d.kind? place = some .dir →
      Leads d target links place.dropLast rest last → Leads d target links place (".." :: rest) last
  | enter {links : Nat} {place last : Place} {piece : String} {rest : List String} {k : Kind} :
      d.kind? place = some .dir → IsName piece → d.kind? (place ++ [piece]) = some k →
      (∀ path, k ≠ .link path) →
      Leads d target links (place ++ [piece]) rest last → Leads d target links place (piece :: rest) last
  | link {links : Nat} {place last : Place} {piece : String} {rest : List String} {path : String} :
      d.kind? place = some .dir → IsName piece → d.kind? (place ++ [piece]) = some (.link path) →
      ¬ (rest = [] ∧ target = .named) →
      Leads d target links (if Path.isAbsolute path then [] else place) (Path.pieces path ++ rest) last →
      Leads d target (links + 1) place (piece :: rest) last
  | named {links : Nat} {place : Place} {piece : String} {path : String} :
      d.kind? place = some .dir → IsName piece → d.kind? (place ++ [piece]) = some (.link path) →
      target = .named → Leads d target links place [piece] (place ++ [piece])

/-- What leads to a place is followed to it. -/
theorem Leads.follow (h : Leads d target links place pieces last) :
    d.follow target links place pieces = .ok last := by
  induction h with
  | done links place => exact follow_nil d target links place
  | stay hd hp _ ih => rw [follow_stay hd hp, ih]
  | up hd _ ih => rw [follow_up hd, ih]
  | enter hd hp hk hlink _ ih => rw [follow_enter hd hp hk hlink, ih]
  | link hd hp hk hend _ ih => rw [follow_link hd hp hk hend, ih]
  | named hd hp hk ht =>
    rw [follow_name hd hp, hk]
    simp [ht]

/-- What is followed to the end leads there. -/
theorem leads_of_follow (ht : target ≠ .fresh) (h : d.follow target links place pieces = .ok last) :
    Leads d target links place pieces last := by
  induction links using Nat.strongRecOn generalizing place pieces with
  | ind links jump =>
    induction pieces generalizing place with
    | nil =>
      rw [follow_nil] at h
      cases h
      exact .done _ _
    | cons piece rest ih =>
      have hd : d.kind? place = some .dir := by
        by_cases hd : d.kind? place = some .dir
        · exact hd
        · rw [follow_notDirectory hd] at h
          cases h
      by_cases hstay : piece = "" ∨ piece = "."
      · rw [follow_stay hd hstay] at h
        exact .stay hd hstay (ih h)
      by_cases hup : piece = ".."
      · subst hup
        rw [follow_up hd] at h
        exact .up hd (ih h)
      by_cases hlong : maxName < piece.utf8ByteSize
      · rw [follow_long hd hlong] at h
        cases h
      rw [not_or] at hstay
      have hp : IsName piece := ⟨hstay.1, hstay.2, hup, Nat.not_lt.1 hlong⟩
      cases hk : d.kind? (place ++ [piece]) with
      | none =>
        rw [follow_name hd hp, hk] at h
        simp [ht] at h
      | some k =>
        cases k with
        | link path =>
          by_cases hend : rest = [] ∧ target = .named
          · obtain ⟨rfl, hnamed⟩ := hend
            have hlast : d.follow target links place [piece] = .ok (place ++ [piece]) :=
              (Leads.named hd hp hk hnamed).follow
            rw [h] at hlast
            cases hlast
            exact .named hd hp hk hnamed
          · cases links with
            | zero =>
              rw [follow_name hd hp, hk] at h
              simp [hend] at h
            | succ links =>
              rw [follow_link hd hp hk hend] at h
              exact .link hd hp hk hend (jump links (Nat.lt_succ_self _) h)
        | file content =>
          rw [follow_enter hd hp hk (by simp)] at h
          exact .enter hd hp hk (by simp) (ih h)
        | dir =>
          rw [follow_enter hd hp hk (by simp)] at h
          exact .enter hd hp hk (by simp) (ih h)

theorem follow_eq_ok (ht : target ≠ .fresh) :
    d.follow target links place pieces = .ok last ↔ Leads d target links place pieces last :=
  ⟨leads_of_follow ht, Leads.follow⟩

/-! ## Other disks -/

/-- A path goes no further than to what is no directory. -/
theorem Leads.stop (h : Leads d target links place pieces last) (hk : d.kind? place ≠ some .dir) :
    pieces = [] ∧ last = place := by
  cases h with
  | done => exact ⟨rfl, rfl⟩
  | stay hd => exact absurd hd hk
  | up hd => exact absurd hd hk
  | enter hd => exact absurd hd hk
  | link hd => exact absurd hd hk
  | named hd => exact absurd hd hk

/-- A path leads to the same place on a disk where directories and links are what they were,
    if a file at its end is still a file. -/
theorem Leads.transfer (h : Leads d target links place pieces last)
    (hdir : ∀ p, d.kind? p = some .dir → d'.kind? p = some .dir)
    (hlink : ∀ p path, d.kind? p = some (.link path) → d'.kind? p = some (.link path))
    (hfile : ∀ content, d.kind? last = some (.file content) →
      ∃ content', d'.kind? last = some (.file content')) :
    Leads d' target links place pieces last := by
  induction h with
  | done => exact .done _ _
  | stay hd hp _ ih => exact .stay (hdir _ hd) hp (ih hfile)
  | up hd _ ih => exact .up (hdir _ hd) (ih hfile)
  | @enter _ place last piece rest k hd hp hk hnolink hrest ih =>
    cases k with
    | file content =>
      -- the path ends at a file
      have hlast : last = place ++ [piece] := (hrest.stop (by rw [hk]; simp)).2
      obtain ⟨content', hk'⟩ := hfile content (by rw [hlast, hk])
      exact .enter (hdir _ hd) hp (by rw [← hlast, hk']) (by simp) (ih hfile)
    | dir => exact .enter (hdir _ hd) hp (hdir _ hk) hnolink (ih hfile)
    | link path => exact absurd rfl (hnolink path)
  | link hd hp hk hend _ ih => exact .link (hdir _ hd) hp (hlink _ _ hk) hend (ih hfile)
  | named hd hp hk ht => exact .named (hdir _ hd) hp (hlink _ _ hk) ht

/-! ## Longer paths -/

/-- A path leads on from where its front leads. -/
theorem Leads.split {front back : List String} (h : Leads d .followed links place (front ++ back) last) :
    ∃ middle links', Leads d .followed links place front middle ∧
      Leads d .followed links' middle back last := by
  generalize hpieces : front ++ back = pieces at h
  induction h generalizing front with
  | done links place =>
    obtain ⟨rfl, rfl⟩ := List.append_eq_nil_iff.1 hpieces
    exact ⟨place, links, .done _ _, .done _ _⟩
  | @stay links place last piece rest hd hp hrest ih =>
    cases front with
    | nil => cases hpieces; exact ⟨place, links, .done _ _, .stay hd hp hrest⟩
    | cons first front =>
      cases hpieces
      obtain ⟨middle, links', hfront, hback⟩ := ih rfl
      exact ⟨middle, links', .stay hd hp hfront, hback⟩
  | @up links place last rest hd hrest ih =>
    cases front with
    | nil => cases hpieces; exact ⟨place, links, .done _ _, .up hd hrest⟩
    | cons first front =>
      cases hpieces
      obtain ⟨middle, links', hfront, hback⟩ := ih rfl
      exact ⟨middle, links', .up hd hfront, hback⟩
  | @enter links place last piece rest k hd hp hk hnolink hrest ih =>
    cases front with
    | nil => cases hpieces; exact ⟨place, links, .done _ _, .enter hd hp hk hnolink hrest⟩
    | cons first front =>
      cases hpieces
      obtain ⟨middle, links', hfront, hback⟩ := ih rfl
      exact ⟨middle, links', .enter hd hp hk hnolink hfront, hback⟩
  | @link links place last piece rest path hd hp hk hend hrest ih =>
    cases front with
    | nil => cases hpieces; exact ⟨place, links + 1, .done _ _, .link hd hp hk hend hrest⟩
    | cons first front =>
      cases hpieces
      obtain ⟨middle, links', hfront, hback⟩ := ih (List.append_assoc _ _ _)
      exact ⟨middle, links', .link hd hp hk (by simp) hfront, hback⟩
  | named _ _ _ ht => cases ht

/-- A path leads on to what a name stands for, unless that is a link. -/
theorem Leads.extend {k : Kind} (h : Leads d .followed links place pieces last)
    (hlast : d.kind? last = some .dir) (hp : IsName piece) (hk : d.kind? (last ++ [piece]) = some k)
    (hnolink : ∀ path, k ≠ .link path) :
    Leads d .followed links place (pieces ++ [piece]) (last ++ [piece]) := by
  induction h with
  | done => exact .enter hlast hp hk hnolink (.done _ _)
  | stay hd hs _ ih => exact .stay hd hs (ih hlast hk)
  | up hd _ ih => exact .up hd (ih hlast hk)
  | enter hd hp' hk' hnolink' _ ih => exact .enter hd hp' hk' hnolink' (ih hlast hk)
  | link hd hp' hk' _ _ ih =>
    have hmore := ih hlast hk
    rw [List.append_assoc] at hmore
    exact .link hd hp' hk' (by simp) hmore
  | named _ _ _ ht => cases ht

/-- A file that takes its place in the directory a path leads to is what the longer path leads
    to; or else the path went through a link at that place and is cut off there. -/
theorem Leads.extend_or_cut {content : ByteArray} (h : Leads d .followed links place pieces last)
    (hlast : d.kind? last = some .dir) (hp : IsName piece) (hold : d.kind? (last ++ [piece]) ≠ some .dir)
    (hnew : d'.kind? (last ++ [piece]) = some (.file content))
    (hother : ∀ other, other ≠ last ++ [piece] → d'.kind? other = d.kind? other) :
    Leads d' .followed links place (pieces ++ [piece]) (last ++ [piece]) ∨
      (∃ path, d.kind? (last ++ [piece]) = some (.link path)) ∧
        d'.follow .followed links place (pieces ++ [piece]) = .error .notDirectory := by
  have hdirs : ∀ p, d.kind? p = some .dir → d'.kind? p = some .dir := by
    intro p hd
    rw [hother p (fun heq => hold (heq ▸ hd)), hd]
  induction h with
  | done links place => exact .inl (.enter (hdirs _ hlast) hp hnew (by simp) (.done _ _))
  | stay hd hs _ ih =>
    rcases ih hlast hold hnew hother with hl | ⟨hlink, hcut⟩
    · exact .inl (.stay (hdirs _ hd) hs hl)
    · exact .inr ⟨hlink, by rw [List.cons_append, follow_stay (hdirs _ hd) hs, hcut]⟩
  | up hd _ ih =>
    rcases ih hlast hold hnew hother with hl | ⟨hlink, hcut⟩
    · exact .inl (.up (hdirs _ hd) hl)
    · exact .inr ⟨hlink, by rw [List.cons_append, follow_up (hdirs _ hd), hcut]⟩
  | @enter _ place last first rest k hd hf hk hnolink hrest ih =>
    have hne : place ++ [first] ≠ last ++ [piece] := by
      intro heq
      have hend : last = place ++ [first] := (hrest.stop (heq ▸ hold)).2
      rw [← hend] at heq
      simp at heq
    have hk' := (hother _ hne).trans hk
    rcases ih hlast hold hnew hother with hl | ⟨hlink, hcut⟩
    · exact .inl (.enter (hdirs _ hd) hf hk' hnolink hl)
    · exact .inr ⟨hlink, by rw [List.cons_append, follow_enter (hdirs _ hd) hf hk' hnolink, hcut]⟩
  | @link _ place last first rest path hd hf hk _ _ ih =>
    by_cases heq : place ++ [first] = last ++ [piece]
    · -- the link was at the very place of the file, and there is more to follow
      refine .inr ⟨⟨path, heq ▸ hk⟩, ?_⟩
      rw [List.cons_append, follow_enter (hdirs _ hd) hf (heq ▸ hnew) (by simp)]
      cases hmore : rest ++ [piece] with
      | nil => simp at hmore
      | cons second more =>
        exact follow_notDirectory (by rw [heq, hnew]; simp)
    · have hk' := (hother _ heq).trans hk
      have hmore := ih hlast hold hnew hother
      rw [List.append_assoc] at hmore
      rcases hmore with hl | ⟨hlink, hcut⟩
      · exact .inl (.link (hdirs _ hd) hf hk' (by simp) hl)
      · exact .inr ⟨hlink, by rw [List.cons_append, follow_link (hdirs _ hd) hf hk' (by simp), hcut]⟩
  | named _ _ _ ht => cases ht

/-- Without following a link at its end, a path leads to the same place or to that link. -/
theorem Leads.unfollowed (h : Leads d .followed links place pieces last) :
    ∃ named, Leads d .named links place pieces named ∧
      (named = last ∨ ∃ path, d.kind? named = some (.link path)) := by
  induction h with
  | done links place => exact ⟨place, .done _ _, .inl rfl⟩
  | stay hd hs _ ih =>
    obtain ⟨named, hnamed, hlast⟩ := ih
    exact ⟨named, .stay hd hs hnamed, hlast⟩
  | up hd _ ih =>
    obtain ⟨named, hnamed, hlast⟩ := ih
    exact ⟨named, .up hd hnamed, hlast⟩
  | enter hd hp hk hnolink _ ih =>
    obtain ⟨named, hnamed, hlast⟩ := ih
    exact ⟨named, .enter hd hp hk hnolink hnamed, hlast⟩
  | @link links place last piece rest path hd hp hk _ _ ih =>
    by_cases hend : rest = []
    · subst hend
      exact ⟨place ++ [piece], .named hd hp hk rfl, .inr ⟨path, hk⟩⟩
    · obtain ⟨named, hnamed, hlast⟩ := ih
      exact ⟨named, .link hd hp hk (fun h => hend h.1) hnamed, hlast⟩
  | named _ _ _ ht => cases ht

/-! ## Pieces that lead nowhere -/

/-- Some of the pieces that stay where they are have been left out. -/
inductive Trimmed : List String → List String → Prop
  | nil : Trimmed [] []
  | keep (piece : String) {pieces trimmed : List String} : Trimmed pieces trimmed →
      Trimmed (piece :: pieces) (piece :: trimmed)
  | drop {piece : String} {pieces trimmed : List String} : piece = "" ∨ piece = "." →
      Trimmed pieces trimmed → Trimmed (piece :: pieces) trimmed

theorem Trimmed.append_left (front : List String) {pieces trimmed : List String}
    (h : Trimmed pieces trimmed) : Trimmed (front ++ pieces) (front ++ trimmed) := by
  induction front with
  | nil => exact h
  | cons piece front ih => exact .keep piece ih

theorem trimmed_filter (pieces : List String) :
    Trimmed pieces (pieces.filter fun piece => piece ≠ "" ∧ piece ≠ ".") := by
  induction pieces with
  | nil => exact .nil
  | cons piece rest ih =>
    by_cases h : piece ≠ "" ∧ piece ≠ "."
    · rw [List.filter_cons_of_pos (by simpa using h)]
      exact .keep piece ih
    · rw [List.filter_cons_of_neg (by simpa using h)]
      refine .drop ?_ ih
      rwa [← Decidable.not_not (p := piece = "" ∨ piece = "."), not_or]

theorem Leads.trim {trimmed : List String} (h : Leads d .followed links place pieces last)
    (ht : Trimmed pieces trimmed) : Leads d .followed links place trimmed last := by
  induction h generalizing trimmed with
  | done => cases ht; exact .done _ _
  | stay hd hs _ ih =>
    cases ht with
    | keep _ ht => exact .stay hd hs (ih ht)
    | drop _ ht => exact ih ht
  | up hd _ ih =>
    cases ht with
    | keep _ ht => exact .up hd (ih ht)
    | drop hs _ => exact absurd hs (by decide)
  | enter hd hp hk hnolink _ ih =>
    cases ht with
    | keep _ ht => exact .enter hd hp hk hnolink (ih ht)
    | drop hs _ => exact absurd hs hp.not_blank
  | link hd hp hk _ _ ih =>
    cases ht with
    | keep _ ht => exact .link hd hp hk (by simp) (ih (ht.append_left _))
    | drop hs _ => exact absurd hs hp.not_blank
  | named _ _ _ hnamed => cases hnamed

/-! ## From the top -/

theorem resolve_eq_ok (ht : target ≠ .fresh) : d.resolve target pieces = .ok last ↔
    refusal? pieces = none ∧ Leads d target maxLinks [] pieces last := by
  rw [resolve]
  cases refusal? pieces with
  | none => simp [follow_eq_ok ht]
  | some cause => simp

theorem placeOf_eq_ok : d.placeOf pieces = .ok last ↔
    refusal? pieces = none ∧ Leads d .followed maxLinks [] pieces last :=
  resolve_eq_ok (by simp)

theorem isDir_iff :
    d.isDir pieces = true ↔ ∃ place, d.placeOf pieces = .ok place ∧ d.kind? place = some .dir := by
  unfold isDir
  cases d.placeOf pieces with
  | error cause => simp
  | ok place =>
    simp only [Except.ok.injEq, exists_eq_left', kind?_eq_dir]
    cases d.get? place with
    | none => simp
    | some n => cases n <;> simp

theorem find_eq_ok {path : String} {n : Node} : d.find path = .ok n ↔
    ∃ place, d.placeOf (Path.pieces path) = .ok place ∧ d.get? place = some n := by
  rw [find, Fallible.bind_eq_ok]
  refine exists_congr fun place => and_congr_right fun _ => ?_
  cases d.get? place <;> simp

theorem entry_eq_ok {path : String} {n : Node} : d.entry path = .ok n ↔
    ∃ place, d.resolve .named (Path.pieces path) = .ok place ∧ d.get? place = some n := by
  rw [entry, Fallible.bind_eq_ok]
  refine exists_congr fun place => and_congr_right fun _ => ?_
  cases d.get? place <;> simp

/-- A text is read from the file that its path leads to. -/
theorem readText_eq_ok {path text : String} : d.readText path = .ok text ↔
    ∃ place content, d.placeOf (Path.pieces path) = .ok place ∧ d.kind? place = some (.file content) ∧
      String.fromUTF8? content = some text := by
  rw [readText, Fallible.bind_eq_ok]
  simp only [find_eq_ok, kind?_eq_file]
  constructor
  · intro h
    obtain ⟨n, ⟨place, hplace, hn⟩, h⟩ := h
    cases n with
    | file content =>
      refine ⟨place, content, hplace, hn, ?_⟩
      dsimp only at h
      split at h
      · rename_i read hread
        cases h
        exact hread
      · cases h
    | dir entries => cases h
    | link target => cases h
  · intro h
    obtain ⟨place, content, hplace, hfile, htext⟩ := h
    exact ⟨_, ⟨place, hplace, hfile⟩, by simp only [htext]⟩

end ServiceSchema.Disk

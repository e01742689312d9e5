import Schemata.Proofs.Visits

/-!
# The order of first visits

The files that a declaration includes, directly or through others, are visited depth first: a file comes
before those that it includes, these come in the order of its includes, and a file that was seen before
is passed over. A tour is the list of files in this order, each with the includes through which it was
reached first. There is at most one tour, it visits no file twice, and it passes over no file that has
not been seen.
-/

namespace Schemata

/-- A visited file, with the includes that lead to it from the first file on. -/
structure Visited where
  path : Path
  decl : SchemaDecl
  way : List IncludeDecl

/-- From the includes of the file `x`, which is reached by a way, the tour visits these files, where those that
    have been `seen` are passed over. The file that was seen last comes first. -/
inductive Tour (l : Library) :
    List Path → Option Path → List IncludeDecl → List IncludeDecl → List Visited → Prop where
  | nil {seen x way} : Tour l seen x way [] []
  | again {seen x way i is p vs} (resolved : resolveInclude x i.filename = .ok p)
      (old : p.components ∈ seen.map Path.components) (rest : Tour l seen x way is vs) : Tour l seen x way (i :: is) vs
  | visit {seen x way i is p decl us vs} (resolved : resolveInclude x i.filename = .ok p)
      (new : p.components ∉ seen.map Path.components) (loaded : loadDecl l p = .ok decl)
      (below : Tour l (p :: seen) (some p) (way ++ [i]) decl.includes us)
      (rest : Tour l ((us.map (·.path)).reverse ++ p :: seen) x way is vs) :
      Tour l seen x way (i :: is) (⟨p, decl, way ++ [i]⟩ :: us ++ vs)

/-- From includes of the file `x` a way leads to a file of a library and what it declares. -/
inductive Leads (l : Library) : Option Path → List IncludeDecl → List IncludeDecl → Path → SchemaDecl → Prop where
  | last {x is i p decl} (included : i ∈ is) (resolved : resolveInclude x i.filename = .ok p)
      (loaded : loadDecl l p = .ok decl) : Leads l x is [i] p decl
  | step {x is i p decl way q inner} (included : i ∈ is) (resolved : resolveInclude x i.filename = .ok p)
      (loaded : loadDecl l p = .ok decl) (further : Leads l (some p) decl.includes way q inner) :
      Leads l x is (i :: way) q inner

/-- Every include of the file `x` leads to one of the files. -/
def Covers (files : List Path) (x : Option Path) (is : List IncludeDecl) : Prop :=
  ∀ i ∈ is, ∃ p, resolveInclude x i.filename = .ok p ∧ p.components ∈ files.map Path.components

variable {l : Library} {seen : List Path} {x : Option Path} {way is : List IncludeDecl} {vs : List Visited}

theorem Covers.mono {files more : List Path} (h : Covers files x is) (hmore : files ⊆ more) : Covers more x is := by
  intro i hi
  obtain ⟨p, hp, hmem⟩ := h i hi
  exact ⟨p, hp, List.map_subset _ hmore hmem⟩

theorem Leads.mono {js : List IncludeDecl} {p : Path} {decl : SchemaDecl} (h : Leads l x is way p decl)
    (hjs : is ⊆ js) : Leads l x js way p decl := by
  cases h with
  | last included resolved loaded => exact .last (hjs included) resolved loaded
  | step included resolved loaded further => exact .step (hjs included) resolved loaded further

theorem Leads.loaded {p : Path} {decl : SchemaDecl} (h : Leads l x is way p decl) : loadDecl l p = .ok decl := by
  induction h with
  | last _ _ loaded => exact loaded
  | step _ _ _ _ ih => exact ih

namespace Tour

/-- The files that have been seen after a tour. -/
abbrev after (seen : List Path) (vs : List Visited) : List Path :=
  (vs.map (·.path)).reverse ++ seen

theorem after_visit (p : Path) (decl : SchemaDecl) (us : List Visited) :
    after seen (⟨p, decl, way⟩ :: us ++ vs) = after (after (p :: seen) us) vs := by
  simp [after]

theorem unique (h : Tour l seen x way is vs) {us : List Visited} (h' : Tour l seen x way is us) : us = vs := by
  induction h generalizing us with
  | nil =>
    cases h'
    rfl
  | again resolved old _ ih =>
    cases h' with
    | again resolved' old' rest' => exact ih rest'
    | visit resolved' new' =>
      obtain rfl := Except.ok.inj (resolved.symm.trans resolved')
      exact absurd old new'
  | visit resolved new loaded _ _ ihbelow ihrest =>
    cases h' with
    | again resolved' old' =>
      obtain rfl := Except.ok.inj (resolved.symm.trans resolved')
      exact absurd old' new
    | visit resolved' new' loaded' below' rest' =>
      obtain rfl := Except.ok.inj (resolved.symm.trans resolved')
      obtain rfl := Except.ok.inj (loaded.symm.trans loaded')
      obtain rfl := ihbelow below'
      obtain rfl := ihrest rest'
      rfl

/-- No file is visited twice, nor one that was seen before. -/
theorem nodup (h : Tour l seen x way is vs) (hseen : (seen.map Path.components).Nodup) :
    ((after seen vs).map Path.components).Nodup := by
  induction h with
  | nil => exact hseen
  | again _ _ _ ih => exact ih hseen
  | visit _ new _ _ _ ihbelow ihrest =>
    rw [after_visit]
    exact ihrest (ihbelow (List.nodup_cons.mpr ⟨new, hseen⟩))

/-- Every include, of the first file and of those that are visited, leads to a file that was seen. -/
theorem covers (h : Tour l seen x way is vs) :
    Covers (after seen vs) x is ∧ ∀ u ∈ vs, Covers (after seen vs) (some u.path) u.decl.includes := by
  induction h with
  | nil => exact ⟨fun i hi => absurd hi List.not_mem_nil, fun u hu => absurd hu List.not_mem_nil⟩
  | again resolved old _ ih =>
    obtain ⟨hrest, hall⟩ := ih
    refine ⟨?_, hall⟩
    intro j hj
    rcases List.mem_cons.mp hj with rfl | hj
    · exact ⟨_, resolved, List.map_subset _ (List.subset_append_right _ _) old⟩
    · exact hrest j hj
  | @visit seen x way i is p decl us vs resolved new loaded _ _ ihbelow ihrest =>
    obtain ⟨hbelow, hus⟩ := ihbelow
    obtain ⟨hrest, hvs⟩ := ihrest
    rw [after_visit]
    have hlater : after (p :: seen) us ⊆ after (after (p :: seen) us) vs := List.subset_append_right _ _
    have hp : p ∈ after (after (p :: seen) us) vs :=
      hlater (List.mem_append_right _ List.mem_cons_self)
    constructor
    · intro j hj
      rcases List.mem_cons.mp hj with rfl | hj
      · exact ⟨p, resolved, List.mem_map_of_mem hp⟩
      · exact hrest j hj
    · intro u hu
      rcases List.mem_append.mp hu with hu | hu
      · rcases List.mem_cons.mp hu with rfl | hu
        · exact hbelow.mono hlater
        · exact (hus u hu).mono hlater
      · exact hvs u hu

/-- A visited file is reached by its way. -/
theorem leads (h : Tour l seen x way is vs) :
    ∀ u ∈ vs, ∃ further, u.way = way ++ further ∧ Leads l x is further u.path u.decl := by
  induction h with
  | nil => exact fun u hu => absurd hu List.not_mem_nil
  | again _ _ _ ih =>
    intro u hu
    obtain ⟨further, hway, hleads⟩ := ih u hu
    exact ⟨further, hway, hleads.mono (List.subset_cons_self _ _)⟩
  | @visit seen x way i is p decl us vs resolved _ loaded _ _ ihbelow ihrest =>
    intro u hu
    rcases List.mem_append.mp hu with hu | hu
    · rcases List.mem_cons.mp hu with rfl | hu
      · exact ⟨[i], rfl, .last List.mem_cons_self resolved loaded⟩
      · obtain ⟨further, hway, hleads⟩ := ihbelow u hu
        exact ⟨i :: further, by rw [hway, List.append_assoc]; rfl, .step List.mem_cons_self resolved loaded hleads⟩
    · obtain ⟨further, hway, hleads⟩ := ihrest u hu
      exact ⟨further, hway, hleads.mono (List.subset_cons_self _ _)⟩

end Tour

/-- The files that are visited from a declaration at `start`: each file that is included, directly or through
    others, once, in the order of the first visits. -/
structure FirstVisits (l : Library) (start : Option Path) (decl : SchemaDecl) (vs : List Visited) : Prop where
  tour : Tour l start.toList start [] decl.includes vs
  only : ∀ us, Tour l start.toList start [] decl.includes us → us = vs
  once : ((start.toList ++ vs.map (·.path)).map Path.components).Nodup
  ahead : Covers (start.toList ++ vs.map (·.path)) start decl.includes
  below : ∀ u ∈ vs, Covers (start.toList ++ vs.map (·.path)) (some u.path) u.decl.includes
  reached : ∀ u ∈ vs, Leads l start decl.includes u.way u.path u.decl

theorem Tour.firstVisits {start : Option Path} {decl : SchemaDecl}
    (h : Tour l start.toList start [] decl.includes vs) : FirstVisits l start decl vs := by
  have hperm : (after start.toList vs).Perm (start.toList ++ vs.map (·.path)) :=
    List.perm_append_comm.trans ((List.reverse_perm _).append_left _)
  have honce := (hperm.map Path.components).nodup_iff.mp (h.nodup (Visits.nodup_start start))
  refine ⟨h, fun us hus => h.unique hus, honce, ?_, fun u hu => ?_, fun u hu => ?_⟩
  · exact h.covers.1.mono hperm.subset
  · exact (h.covers.2 u hu).mono hperm.subset
  · obtain ⟨further, hway, hleads⟩ := h.leads u hu
    rw [hway]
    exact hleads

end Schemata

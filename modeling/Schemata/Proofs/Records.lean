import Schemata.Proofs.Declared

/-!
# What is read from a record

A record is read by putting its fields one after another, whether it is written as an object or as an array
(`RecordKind.Reads`). So what holds of the record of defaults and is kept by each field holds of what is read.
-/

namespace Schemata

variable {α : Type}

namespace RecordKind

variable {k : RecordKind α} {j j' : Json} {a b : α} {es : List (String × Json)}

/-- The fields that are set, in the order in which they are put. -/
def entries (k : RecordKind α) : Json → List (String × Json)
  | .obj ms => ms.filterMap fun m => (k.fieldName? m.1).map fun name => (name, m.2)
  | .arr xs => (k.fields.map (·.name)).zip xs
  | _ => []

def names (k : RecordKind α) (j : Json) : List String :=
  (k.entries j).map (·.1)

/-- Puts fields one after another. -/
def putAll (k : RecordKind α) (a : α) : List (String × Json) → Except ShapeError α
  | [] => .ok a
  | e :: es => do putAll k (← k.put e.1 e.2 a) es

theorem putAll_append {fs : List (String × Json)} :
    k.putAll a (es ++ fs) = .ok b ↔ ∃ c, k.putAll a es = .ok c ∧ k.putAll c fs = .ok b := by
  induction es generalizing a with
  | nil => exact ⟨fun h => ⟨a, rfl, h⟩, fun ⟨_, hc, h⟩ => Except.ok.inj hc ▸ h⟩
  | cons e es ih =>
    simp only [List.cons_append, putAll, bind_eq_ok, ih]
    constructor
    · rintro ⟨x, hx, c, hc, hb⟩
      exact ⟨c, ⟨x, hx, hc⟩, hb⟩
    · rintro ⟨c, ⟨x, hx, hc⟩, hb⟩
      exact ⟨x, hx, c, hc, hb⟩

/-- What each field keeps that is put, all of them keep. -/
theorem putAll_keeps {I : α → Prop} (step : ∀ e ∈ es, ∀ a b, k.put e.1 e.2 a = .ok b → I a → I b)
    (h : k.putAll a es = .ok b) (ha : I a) : I b := by
  induction es generalizing a with
  | nil => exact Except.ok.inj h ▸ ha
  | cons e es ih =>
    obtain ⟨c, hc, h⟩ := bind_eq_ok.mp h
    exact ih (fun e' he' => step e' (List.mem_cons_of_mem e he')) h (step e List.mem_cons_self a c hc ha)

/-- An array has no more items than the record has fields. -/
def Fits (k : RecordKind α) : Json → Prop
  | .obj _ => True
  | .arr xs => xs.length ≤ k.fields.length
  | _ => False

/-- `a` is read from `j`: no field is set twice, none that is needed is missing, and putting them gives `a`. -/
structure Reads (k : RecordKind α) (j : Json) (a : α) : Prop where
  fits : k.Fits j
  distinct : (k.names j).Nodup
  puts : k.putAll k.blank (k.entries j) = .ok a
  complete : ∀ f ∈ k.fields, f.required = true → f.name ∈ k.names j

theorem putMembers_eq_ok {ms : List (String × Json)} {seen : List String} {res : α × List String} :
    k.putMembers a seen ms = .ok res ↔
      (k.names (.obj ms)).Nodup ∧ (∀ name ∈ k.names (.obj ms), name ∉ seen) ∧
        k.putAll a (k.entries (.obj ms)) = .ok res.1 ∧ res.2 = (k.names (.obj ms)).reverse ++ seen := by
  induction ms generalizing a seen with
  | nil =>
    obtain ⟨b, seen'⟩ := res
    simp [putMembers, names, entries, putAll, eq_comm]
  | cons m ms ih =>
    cases hname : k.fieldName? m.1 with
    | none =>
      have hentries : k.entries (.obj (m :: ms)) = k.entries (.obj ms) := by simp [entries, hname]
      have hnames : k.names (.obj (m :: ms)) = k.names (.obj ms) := by rw [names, hentries, names]
      simp only [putMembers, hname, hentries, hnames]
      exact ih
    | some name =>
      have hentries : k.entries (.obj (m :: ms)) = (name, m.2) :: k.entries (.obj ms) := by simp [entries, hname]
      have hnames : k.names (.obj (m :: ms)) = name :: k.names (.obj ms) := by simp [names, hentries]
      simp only [putMembers, hname, hentries, hnames, putAll, List.nodup_cons, List.contains_iff_mem]
      by_cases hseen : name ∈ seen
      · simp [hseen]
      · simp only [hseen, if_false, bind_eq_ok, ih, List.reverse_cons, List.append_assoc, List.singleton_append]
        constructor
        · rintro ⟨c, hc, hnodup, hfresh, hputs, hres⟩
          have hnew : name ∉ k.names (.obj ms) := fun hmem => hfresh name hmem List.mem_cons_self
          refine ⟨⟨hnew, hnodup⟩, List.forall_mem_cons.mpr ⟨hseen, fun other hother hmem => ?_⟩, ⟨c, hc, hputs⟩, hres⟩
          exact hfresh other hother (List.mem_cons_of_mem name hmem)
        · rintro ⟨⟨hnew, hnodup⟩, hfresh, ⟨c, hc, hputs⟩, hres⟩
          refine ⟨c, hc, hnodup, fun other hother hmem => ?_, hputs, hres⟩
          rcases List.mem_cons.mp hmem with rfl | hmem
          · exact hnew hother
          · exact (List.forall_mem_cons.mp hfresh).2 other hother hmem

theorem putItems_eq_ok {fields : List RecordField} {xs : List Json} {pos : Nat} :
    k.putItems a pos fields xs = .ok b ↔
      k.putAll a ((fields.map (·.name)).zip xs) = .ok b ∧ ∀ f ∈ fields.drop xs.length, f.required = false := by
  induction fields generalizing a pos xs with
  | nil => simp [putItems, putAll]
  | cons f fields ih =>
    cases xs with
    | nil =>
      have hrest : k.putItems a (pos + 1) fields [] = .ok b ↔ _ := ih
      cases hf : f.required with
      | true => simp [putItems, hf]
      | false => simpa [putItems, hf, putAll] using hrest
    | cons x xs =>
      simp only [putItems, bind_eq_ok, ih, List.map_cons, List.zip_cons_cons, putAll, List.length_cons,
        List.drop_succ_cons]
      constructor
      · exact fun ⟨c, hc, hputs, hdrop⟩ => ⟨⟨c, hc, hputs⟩, hdrop⟩
      · exact fun ⟨⟨c, hc, hputs⟩, hdrop⟩ => ⟨c, hc, hputs, hdrop⟩

theorem shape_obj_eq_ok {ms : List (String × Json)} : k.shape (.obj ms) = .ok a ↔ k.Reads (.obj ms) a := by
  rw [shape, ofMembers, bind_eq_ok]
  constructor
  · rintro ⟨⟨b, seen⟩, hput, hend⟩
    obtain ⟨hnodup, -, hputs, rfl⟩ := putMembers_eq_ok.mp hput
    dsimp only at hend
    split at hend
    · cases hend
    · rename_i hnone
      cases hend
      exact ⟨trivial, hnodup, hputs, fun f hf hreq => by simpa [hreq] using List.find?_eq_none.mp hnone f hf⟩
  · rintro ⟨-, hnodup, hputs, hcomplete⟩
    refine ⟨(a, (k.names (.obj ms)).reverse ++ []), putMembers_eq_ok.mpr ⟨hnodup, by simp, hputs, rfl⟩, ?_⟩
    have hnone : (k.fields.find? fun f =>
        f.required && !((k.names (.obj ms)).reverse ++ []).contains f.name) = none := by
      refine List.find?_eq_none.mpr fun f hf => ?_
      cases hreq : f.required with
      | false => simp
      | true => simpa using hcomplete f hf hreq
    simp only [hnone, pure_eq_ok]

/-- The names in an array are those of the first fields. -/
theorem names_arr {xs : List Json} (hxs : xs.length ≤ k.fields.length) :
    k.names (.arr xs) = (k.fields.take xs.length).map (·.name) := by
  have hmin : min (k.fields.map (·.name)).length xs.length = xs.length := by
    rw [List.length_map, Nat.min_eq_right hxs]
  rw [names, entries, List.zip_eq_zip_take_min, hmin, List.take_length, List.map_take, List.map_fst_zip]
  simp [hxs]

/-- The fields of the items of an array are the ones at their positions. -/
theorem mem_names_arr {xs : List Json} {name : String} :
    name ∈ k.names (.arr xs) ↔ ∃ n < xs.length, (k.fields[n]?).map (·.name) = some name := by
  rw [names, entries, List.mem_map]
  simp only [List.mem_iff_getElem?, List.getElem?_zip_eq_some, List.getElem?_map]
  constructor
  · rintro ⟨e, ⟨n, hname, hitem⟩, rfl⟩
    exact ⟨n, (List.getElem?_eq_some_iff.mp hitem).1, hname⟩
  · rintro ⟨n, hn, hname⟩
    exact ⟨(name, xs[n]), ⟨n, hname, List.getElem?_eq_getElem hn⟩, rfl⟩

theorem shape_arr_eq_ok {xs : List Json} (hk : (k.fields.map (·.name)).Nodup) :
    k.shape (.arr xs) = .ok a ↔ k.Reads (.arr xs) a := by
  rw [shape, ofItems, bind_eq_ok]
  constructor
  · rintro ⟨b, hput, hend⟩
    obtain ⟨hputs, hdrop⟩ := putItems_eq_ok.mp hput
    split at hend
    · cases hend
    · rename_i hlong
      cases hend
      have hfits := Nat.le_of_not_lt hlong
      refine ⟨hfits, ?_, hputs, fun f hf hreq => ?_⟩
      · exact names_arr hfits ▸ hk.sublist ((List.take_sublist _ _).map _)
      · rw [← List.take_append_drop xs.length k.fields, List.mem_append] at hf
        rcases hf with hf | hf
        · exact names_arr hfits ▸ List.mem_map_of_mem hf
        · exact absurd hreq (by simp [hdrop f hf])
  · rintro ⟨hfits, -, hputs, hcomplete⟩
    refine ⟨a, putItems_eq_ok.mpr ⟨hputs, fun f hf => ?_⟩, if_neg (Nat.not_lt.mpr hfits)⟩
    rw [← List.take_append_drop xs.length k.fields, List.map_append] at hk
    by_contra hreq
    -- A field behind the items is not among their names.
    have hmem := hcomplete f (List.mem_of_mem_drop hf) (by simpa using hreq)
    rw [names_arr hfits] at hmem
    exact (List.nodup_append'.mp hk).2.2 hmem (List.mem_map_of_mem hf)

theorem shape_eq_ok (hk : (k.fields.map (·.name)).Nodup) : k.shape j = .ok a ↔ k.Reads j a := by
  cases j with
  | obj ms => exact shape_obj_eq_ok
  | arr xs => exact shape_arr_eq_ok hk
  | null | bool | num | str => exact iff_of_false (fun h => by cases h) fun h => h.fits

/-- What holds of the record of defaults and is kept by each field holds of what is read. -/
theorem shape_keeps {I : α → Prop} (hk : (k.fields.map (·.name)).Nodup) (blank : I k.blank)
    (step : ∀ name j a b, k.put name j a = .ok b → I a → I b) (h : k.shape j = .ok a) : I a :=
  putAll_keeps (fun e _ => step e.1 e.2) ((shape_eq_ok hk).mp h).puts blank

end RecordKind

end Schemata

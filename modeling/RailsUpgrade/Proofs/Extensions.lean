import Mathlib.Data.Set.List
import RailsUpgrade.Proofs.Coverage
import RailsUpgrade.Rule.Shelf

/-!
# `RailsUpgrade.Proofs.Extensions`: the rules of extensions in a registry

A registry is a list of detections, a list of repairs by spelling and a list of names. A shelf is a
list of extensions by name. Whatever calls have led to the two, putting the one into the other is
told by the names alone.

* `Keyed.Filed`: entries with different keys, each under a key of its own, which `put` and `erase`
  keep;
* `Registry.run`, `Shelf.run`: what calls make of a registry and of a shelf;
* `arrived`, `lastRepair?`: the requests that reach a registry, and the last repair among them;
* `Registry.Merged`, `merged_applyAll`: what extensions with different names add to a registry;
* `applyAll_of_applied`: names that were applied add nothing;
* `merged_shelf`: all of this, for every registry and every shelf that calls can lead to.
-/

set_option autoImplicit false

namespace RailsUpgrade

/-! ### Entries under keys -/

namespace Keyed

variable {α : Type}

theorem lookup_cons (x : String × α) (entries : List (String × α)) (k : String) :
    (x :: entries).lookup k = if k = x.1 then some x.2 else entries.lookup k := by
  rw [List.lookup_cons]
  by_cases hk : k = x.1
  · simp [hk]
  · rw [beq_false_of_ne hk, if_neg hk]

/-- A value that is filed changes what stands under its key, and nothing else. -/
theorem lookup_put (key : String) (value : α) (entries : List (String × α)) (k : String) :
    (put key value entries).lookup k = if k = key then some value else entries.lookup k := by
  induction entries with
  | nil => exact lookup_cons _ _ _
  | cons entry rest ih =>
    unfold put
    by_cases hentry : entry.1 = key
    · rw [if_pos (beq_iff_eq.mpr hentry), lookup_cons, lookup_cons, hentry]
      split <;> rfl
    · rw [if_neg (mt beq_iff_eq.mp hentry), lookup_cons, lookup_cons, ih]
      by_cases hk : k = entry.1
      · simp [hk, hentry]
      · simp [hk]

/-- A key keeps its place. A new one comes last. -/
theorem keys_put (key : String) (value : α) (entries : List (String × α)) :
    keys (put key value entries) =
      if key ∈ keys entries then keys entries else keys entries ++ [key] := by
  induction entries with
  | nil => simp [put, keys]
  | cons entry rest ih =>
    unfold put
    by_cases hentry : entry.1 = key
    · simp [keys, hentry]
    · have hne : ¬ key = entry.1 := fun h => hentry h.symm
      have hcons : keys (entry :: put key value rest) = entry.1 :: keys (put key value rest) := rfl
      have hmem : key ∈ keys (entry :: rest) ↔ key ∈ keys rest := by simp [keys, hne]
      rw [if_neg (mt beq_iff_eq.mp hentry), hcons, ih]
      simp only [hmem]
      split <;> rfl

theorem mem_put {key : String} {value : α} {entries : List (String × α)} {x : String × α}
    (h : x ∈ put key value entries) : x = (key, value) ∨ x ∈ entries := by
  induction entries with
  | nil => exact .inl (List.mem_singleton.mp h)
  | cons entry rest ih =>
    unfold put at h
    split at h
    · rcases List.mem_cons.mp h with h | h
      · exact .inl h
      · exact .inr (List.mem_cons_of_mem _ h)
    · rcases List.mem_cons.mp h with h | h
      · exact .inr (h ▸ List.mem_cons_self)
      · exact (ih h).imp_right (List.mem_cons_of_mem _)

theorem lookup_of_notMem {entries : List (String × α)} {k : String} (h : k ∉ keys entries) :
    entries.lookup k = none := by
  rw [List.lookup_eq_none_iff]
  intro x hx
  simp only [bne_iff_ne, ne_eq]
  rintro rfl
  exact h (List.mem_map_of_mem hx)

/-- Entries that are filed one after the other go before the ones that were there. -/
theorem lookup_foldl_put (more entries : List (String × α)) (h : (keys more).Nodup) (k : String) :
    (more.foldl (fun entries x => put x.1 x.2 entries) entries).lookup k =
      (more.lookup k).or (entries.lookup k) := by
  induction more generalizing entries with
  | nil => rfl
  | cons x more ih =>
    obtain ⟨hx, hmore⟩ := List.nodup_cons.mp (show (x.1 :: keys more).Nodup from h)
    rw [List.foldl_cons, ih _ hmore, lookup_put, lookup_cons]
    by_cases hk : k = x.1
    · subst hk
      simp [lookup_of_notMem hx]
    · simp [hk]

/-- Entries have different keys, and each value stands under its own one. -/
structure Filed (key : α → String) (entries : List (String × α)) : Prop where
  nodup : (keys entries).Nodup
  under : ∀ x ∈ entries, x.1 = key x.2

variable {key : α → String} {entries : List (String × α)}

theorem Filed.nil : Filed key ([] : List (String × α)) := ⟨List.nodup_nil, by simp⟩

theorem Filed.put (h : Filed key entries) (value : α) :
    Filed key (put (key value) value entries) := by
  refine ⟨?_, ?_⟩
  · rw [keys_put]
    split
    · exact h.nodup
    · rename_i hnew
      exact List.nodup_append.mpr ⟨h.nodup, by simp, by
        rintro a ha b hb rfl
        exact hnew (List.mem_singleton.mp hb ▸ ha)⟩
  · intro x hx
    rcases mem_put hx with rfl | hx
    · rfl
    · exact h.under x hx

theorem Filed.erase (h : Filed key entries) (name : String) : Filed key (erase name entries) :=
  ⟨h.nodup.sublist (List.filter_sublist.map _), fun x hx => h.under x (List.mem_of_mem_filter hx)⟩

theorem Filed.keys_eq (h : Filed key entries) : keys entries = (entries.map (·.2)).map key := by
  rw [List.map_map]
  exact List.map_congr_left h.under

theorem Filed.foldl_put (h : Filed key entries) (values : List α) :
    Filed key (values.foldl (fun entries x => Keyed.put (key x) x entries) entries) := by
  induction values generalizing entries with
  | nil => exact h
  | cons x values ih => exact ih (h.put x)

end Keyed

/-! ### Requests -/

/-- The repair that a request files under a spelling. A spelling that cannot be read files none. -/
def Registration.repairFor? (source : String) (q : Registration) : Option Repair :=
  match q.rule? with
  | some (.repair r) => if source = q.source then some r else none
  | _ => none

/-- The last repair that requests file under a spelling. -/
def lastRepair? (source : String) (qs : List Registration) : Option Repair :=
  qs.reverse.findSome? (·.repairFor? source)

theorem lastRepair?_cons (source : String) (q : Registration) (qs : List Registration) :
    lastRepair? source (q :: qs) = (lastRepair? source qs).or (q.repairFor? source) := by
  simp [lastRepair?, List.findSome?_append]

theorem lastRepair?_append (source : String) (qs qs' : List Registration) :
    lastRepair? source (qs ++ qs') = (lastRepair? source qs').or (lastRepair? source qs) := by
  simp [lastRepair?, List.findSome?_append]

/-- A rule keeps the spelling that was asked for. -/
theorem Registration.source_of_rule? {q : Registration} {r : Repair}
    (h : q.rule? = some (.repair r)) : r.source = q.source := by
  simp only [rule?, Option.map_eq_some_iff] at h
  obtain ⟨p, hp, hrule⟩ := h
  have hsource : p.source = q.source := by
    match hc : q.compiled with
    | .error e => simp [hc, Except.toOption] at hp
    | .ok p' =>
      obtain rfl : p' = p := by simpa [hc, Except.toOption] using hp
      exact Pattern.source_of_compile hc
  cases q with
  | detection => cases hrule
  | repair flags source replacement safe =>
    cases hrule
    exact hsource

/-- A request, seen from the repairs that it may be added to. -/
theorem Registration.lookup_add (q : Registration) (repairs : List (String × Repair))
    (source : String) :
    (match q.rule? with
      | some (.repair r) => Keyed.put r.source r repairs
      | _ => repairs).lookup source = (q.repairFor? source).or (repairs.lookup source) := by
  unfold repairFor?
  match hrule : q.rule? with
  | none => rfl
  | some (.detection d) => rfl
  | some (.repair r) =>
    simp only [Keyed.lookup_put, source_of_rule? hrule]
    split <;> rfl

theorem Extension.repairs_register (e : Extension) (q : Registration) :
    (e.register q).repairs = match q.rule? with
      | some (.repair r) => Keyed.put r.source r e.repairs
      | _ => e.repairs := by
  unfold register
  match q.rule? with
  | none | some (.detection _) | some (.repair _) => rfl

theorem Registry.repairs_register (r : Registry) (q : Registration) :
    (r.register q).repairs = match q.rule? with
      | some (.repair x) => Keyed.put x.source x r.repairs
      | _ => r.repairs := by
  unfold register
  match q.rule? with
  | none | some (.detection _) | some (.repair _) => rfl

/-! ### Bundles -/

/-- An extension as it is made: a name, and the requests that fill it. -/
structure Bundle where
  name : String
  description : String := ""
  requests : List Registration := []

/-- The extension that requests make. -/
def Bundle.extension (b : Bundle) : Extension :=
  b.requests.foldl Extension.register { name := b.name, description := b.description }

/-- A bundle that gets one more request. -/
def Bundle.fill (b : Bundle) (q : Registration) : Bundle := { b with requests := b.requests ++ [q] }

theorem Bundle.extension_fill (b : Bundle) (q : Registration) :
    (b.fill q).extension = b.extension.register q := by
  simp [extension, fill]

theorem Extension.name_register (e : Extension) (q : Registration) :
    (e.register q).name = e.name := by
  unfold register
  match q.rule? with
  | none | some (.detection _) | some (.repair _) => rfl

@[simp] theorem Bundle.name_extension (b : Bundle) : b.extension.name = b.name := by
  have hfold : ∀ (qs : List Registration) (e : Extension),
      (qs.foldl Extension.register e).name = e.name := by
    intro qs
    induction qs with
    | nil => exact fun e => rfl
    | cons q qs ih => exact fun e => (ih _).trans (e.name_register q)
  exact hfold b.requests _

/-- The repairs of an extension stand under their own spellings. -/
theorem Extension.filed_register {e : Extension} (h : Keyed.Filed Repair.source e.repairs)
    (q : Registration) : Keyed.Filed Repair.source (e.register q).repairs := by
  rw [repairs_register]
  match q.rule? with
  | none | some (.detection _) => exact h
  | some (.repair r) => exact h.put r

theorem Bundle.filed_extension (b : Bundle) : Keyed.Filed Repair.source b.extension.repairs := by
  have hfold : ∀ (qs : List Registration) (e : Extension), Keyed.Filed Repair.source e.repairs →
      Keyed.Filed Repair.source (qs.foldl Extension.register e).repairs := by
    intro qs
    induction qs with
    | nil => exact fun e he => he
    | cons q qs ih => exact fun e he => ih _ (Extension.filed_register he q)
  exact hfold b.requests _ Keyed.Filed.nil

/-- Of the requests with one spelling the last one counts. -/
theorem Bundle.lookup_extension (b : Bundle) (source : String) :
    b.extension.repairs.lookup source = lastRepair? source b.requests := by
  have hfold : ∀ (qs : List Registration) (e : Extension),
      (qs.foldl Extension.register e).repairs.lookup source =
        (lastRepair? source qs).or (e.repairs.lookup source) := by
    intro qs
    induction qs with
    | nil => exact fun e => rfl
    | cons q qs ih =>
      intro e
      rw [List.foldl_cons, ih, Extension.repairs_register, q.lookup_add, lastRepair?_cons,
        Option.or_assoc]
  rw [extension, hfold]
  exact Option.or_none

/-! ### One extension in a registry -/

namespace Registry

theorem apply_of_applied {r : Registry} {e : Extension} (h : e.name ∈ r.applied) :
    r.apply e = r := by
  rw [apply, if_pos (List.contains_iff_mem.mpr h)]

theorem apply_of_new {r : Registry} {e : Extension} (h : e.name ∉ r.applied) :
    r.apply e = {
      detections := r.detections ++ e.detections
      repairs := (e.repairs.map (·.2)).foldl (fun repairs x => Keyed.put x.source x repairs)
        r.repairs
      applied := r.applied ++ [e.name] } := by
  have hfold : ∀ (xs : List (String × Repair)) (r : Registry),
      xs.foldl (fun r x => r.add (.repair x.2)) r = { r with
        repairs := (xs.map (·.2)).foldl (fun repairs x => Keyed.put x.source x repairs)
          r.repairs } := by
    intro xs
    induction xs with
    | nil => exact fun r => rfl
    | cons x xs ih => exact fun r => ih _
  rw [apply, if_neg (mt List.contains_iff_mem.mp h), hfold]

/-- The repairs of an extension go before the ones that were there. -/
theorem repair?_apply_of_new {r : Registry} {e : Extension}
    (he : Keyed.Filed Repair.source e.repairs) (h : e.name ∉ r.applied) (source : String) :
    (r.apply e).repair? source = (e.repairs.lookup source).or (r.repair? source) := by
  have hunder : (e.repairs.map (·.2)).foldl (fun repairs x => Keyed.put x.source x repairs)
      r.repairs = e.repairs.foldl (fun repairs x => Keyed.put x.1 x.2 repairs) r.repairs := by
    rw [List.foldl_map]
    exact List.foldl_ext _ _ _ fun repairs x hx => by rw [he.under x hx]
  rw [apply_of_new h, repair?, hunder, Keyed.lookup_foldl_put _ _ he.nodup]
  rfl

theorem mem_applied_apply (r : Registry) (e : Extension) (name : String) :
    name ∈ (r.apply e).applied ↔ name ∈ r.applied ∨ name = e.name := by
  by_cases h : e.name ∈ r.applied
  · rw [apply_of_applied h]
    exact ⟨.inl, fun hname => hname.elim id fun heq => heq ▸ h⟩
  · rw [apply_of_new h]
    simp

/-- The repairs of a registry stand under their own spellings. -/
theorem filed_apply {r : Registry} (h : Keyed.Filed Repair.source r.repairs) (e : Extension) :
    Keyed.Filed Repair.source (r.apply e).repairs := by
  by_cases hname : e.name ∈ r.applied
  · rwa [apply_of_applied hname]
  · rw [apply_of_new hname]
    exact h.foldl_put _

theorem filed_register {r : Registry} (h : Keyed.Filed Repair.source r.repairs)
    (q : Registration) : Keyed.Filed Repair.source (r.register q).repairs := by
  rw [repairs_register]
  match q.rule? with
  | none | some (.detection _) => exact h
  | some (.repair x) => exact h.put x

theorem applied_register (r : Registry) (q : Registration) :
    (r.register q).applied = r.applied := by
  unfold register
  match q.rule? with
  | none | some (.detection _) | some (.repair _) => rfl

/-! ### Several extensions in a registry -/

/-- The extensions whose names were not applied yet. -/
def unapplied (r : Registry) (es : List Extension) : List Extension :=
  es.filter fun e => !r.applied.contains e.name

/-- What extensions with different names add to a registry: only new names count, detections come in
order, and of two repairs with one spelling the later one counts. -/
structure Merged (r : Registry) (es : List Extension) (r' : Registry) : Prop where
  detections : r'.detections = r.detections ++ (r.unapplied es).flatMap (·.detections)
  applied : r'.applied = r.applied ++ (r.unapplied es).map (·.name)
  repair? : ∀ source, r'.repair? source =
    ((r.unapplied es).reverse.findSome? (·.repairs.lookup source)).or (r.repair? source)

theorem unapplied_cons_of_applied {r : Registry} {e : Extension} (h : e.name ∈ r.applied)
    (es : List Extension) : r.unapplied (e :: es) = r.unapplied es := by
  simp [unapplied, h]

theorem unapplied_cons_of_new {r : Registry} {e : Extension} (h : e.name ∉ r.applied)
    {es : List Extension} (hes : e.name ∉ es.map (·.name)) :
    r.unapplied (e :: es) = e :: (r.apply e).unapplied es := by
  have hsame : (r.apply e).unapplied es = r.unapplied es := by
    refine List.filter_congr fun e' he' => ?_
    have hne : e'.name ≠ e.name := fun heq => hes (heq ▸ List.mem_map_of_mem he')
    rw [apply_of_new h]
    simp [hne]
  rw [hsame]
  simp [unapplied, h]

theorem merged_applyAll (r : Registry) (es : List Extension)
    (hnames : (es.map (·.name)).Nodup)
    (hfiled : ∀ e ∈ es, Keyed.Filed Repair.source e.repairs) : Merged r es (r.applyAll es) := by
  induction es generalizing r with
  | nil => exact ⟨by simp [applyAll, unapplied], by simp [applyAll, unapplied], fun _ => rfl⟩
  | cons e es ih =>
    obtain ⟨hname, hnames⟩ := List.nodup_cons.mp hnames
    obtain ⟨he, hfiled⟩ := List.forall_mem_cons.mp hfiled
    have hrest := ih (r.apply e) hnames hfiled
    have hrun : r.applyAll (e :: es) = (r.apply e).applyAll es := rfl
    by_cases happlied : e.name ∈ r.applied
    · rw [apply_of_applied happlied] at hrest hrun
      rw [hrun]
      refine ⟨?_, ?_, ?_⟩ <;> rw [unapplied_cons_of_applied happlied]
      exacts [hrest.detections, hrest.applied, hrest.repair?]
    · have hcons := unapplied_cons_of_new happlied hname
      rw [hrun]
      refine ⟨?_, ?_, fun source => ?_⟩
      · rw [hrest.detections, hcons, apply_of_new happlied, List.flatMap_cons, List.append_assoc]
      · rw [hrest.applied, hcons, apply_of_new happlied, List.map_cons, List.append_assoc]
        rfl
      · rw [hrest.repair?, repair?_apply_of_new he happlied, hcons, List.reverse_cons,
          List.findSome?_append, Option.or_assoc]
        simp

theorem filed_applyAll {r : Registry} (h : Keyed.Filed Repair.source r.repairs)
    (es : List Extension) : Keyed.Filed Repair.source (r.applyAll es).repairs := by
  induction es generalizing r with
  | nil => exact h
  | cons e es ih => exact ih (filed_apply h e)

theorem applyAll_of_applied {r : Registry} {es : List Extension}
    (h : ∀ e ∈ es, e.name ∈ r.applied) : r.applyAll es = r := by
  induction es with
  | nil => rfl
  | cons e es ih =>
    obtain ⟨he, hes⟩ := List.forall_mem_cons.mp h
    have hstep : r.applyAll (e :: es) = (r.apply e).applyAll es := rfl
    rw [hstep, apply_of_applied he, ih hes]

theorem mem_applied_applyAll (r : Registry) (es : List Extension) (name : String) :
    name ∈ (r.applyAll es).applied ↔ name ∈ r.applied ∨ ∃ e ∈ es, e.name = name := by
  induction es generalizing r with
  | nil => simp [applyAll]
  | cons e es ih =>
    have hstep : r.applyAll (e :: es) = (r.apply e).applyAll es := rfl
    rw [hstep, ih, mem_applied_apply, List.exists_mem_cons_iff, or_assoc, eq_comm]

/-! ### Calls on a registry -/

/-- A call that adds rules to a registry. -/
inductive Call where
  | register (q : Registration)
  | apply (b : Bundle)

/-- What a call makes of a registry. -/
def call (r : Registry) : Call → Registry
  | .register q => r.register q
  | .apply b => r.apply b.extension

/-- What calls make of a registry. -/
def run (r : Registry) (calls : List Call) : Registry := calls.foldl call r

/-- A new registry, empty or with the rules of the library. -/
def opened (library : Bool) : Registry := if library then stock else {}

/-- The requests that reach a registry: its own ones, and those of every bundle whose name comes up
for the first time. -/
def arrived (applied : List String) : List Call → List Registration
  | [] => []
  | .register q :: calls => q :: arrived applied calls
  | .apply b :: calls =>
    if b.name ∈ applied then arrived applied calls
    else b.requests ++ arrived (applied ++ [b.name]) calls

theorem repair?_run (r : Registry) (calls : List Call) (source : String) :
    (r.run calls).repair? source =
      (lastRepair? source (arrived r.applied calls)).or (r.repair? source) := by
  induction calls generalizing r with
  | nil => rfl
  | cons c calls ih =>
    have hstep : r.run (c :: calls) = (r.call c).run calls := rfl
    rw [hstep, ih]
    cases c with
    | register q =>
      have hrepair : (r.register q).repair? source =
          (q.repairFor? source).or (r.repair? source) := by
        rw [repair?, repairs_register, q.lookup_add]
        rfl
      rw [call, hrepair, applied_register, arrived, lastRepair?_cons, Option.or_assoc]
    | apply b =>
      by_cases hname : b.name ∈ r.applied
      · rw [call, apply_of_applied (by simpa using hname), arrived, if_pos hname]
      · have hnew : b.extension.name ∉ r.applied := by simpa using hname
        have happlied : (r.apply b.extension).applied = r.applied ++ [b.name] := by
          rw [apply_of_new hnew, b.name_extension]
        rw [call, arrived, if_neg hname, happlied, repair?_apply_of_new b.filed_extension hnew,
          b.lookup_extension, lastRepair?_append, Option.or_assoc]

theorem mem_applied_run (r : Registry) (calls : List Call) (name : String) :
    name ∈ (r.run calls).applied ↔ name ∈ r.applied ∨ ∃ b, .apply b ∈ calls ∧ b.name = name := by
  induction calls generalizing r with
  | nil => simp [run]
  | cons c calls ih =>
    have hstep : r.run (c :: calls) = (r.call c).run calls := rfl
    rw [hstep, ih]
    cases c with
    | register q => simp [call, applied_register]
    | apply b =>
      rw [call, mem_applied_apply, b.name_extension, or_assoc]
      refine or_congr_right ⟨?_, ?_⟩
      · rintro (rfl | ⟨b', hmem, hname⟩)
        · exact ⟨b, List.mem_cons_self, rfl⟩
        · exact ⟨b', List.mem_cons_of_mem _ hmem, hname⟩
      · rintro ⟨b', hmem, rfl⟩
        rcases List.mem_cons.mp hmem with heq | hmem
        · cases heq
          exact .inl rfl
        · exact .inr ⟨b', hmem, rfl⟩

theorem filed_run {r : Registry} (h : Keyed.Filed Repair.source r.repairs) (calls : List Call) :
    Keyed.Filed Repair.source (r.run calls).repairs := by
  induction calls generalizing r with
  | nil => exact h
  | cons c calls ih =>
    refine ih ?_
    cases c with
    | register q => exact filed_register h q
    | apply b => exact filed_apply h b.extension

theorem run_append (r : Registry) (calls more : List Call) :
    r.run (calls ++ more) = (r.run calls).run more :=
  List.foldl_append

theorem run_apply (r : Registry) (bs : List Bundle) :
    r.run (bs.map .apply) = r.applyAll (bs.map Bundle.extension) := by
  rw [run, applyAll, List.foldl_map, List.foldl_map]
  rfl

/-- A new registry has no repairs and no names. -/
theorem opened_eq (library : Bool) :
    (opened library).repairs = [] ∧ (opened library).applied = [] := by
  cases library <;> exact ⟨rfl, rfl⟩

end Registry

/-! ### Calls on a shelf -/

namespace Shelf

/-- A call that changes a shelf. A bundle may get requests while it stands there. -/
inductive Call where
  | register (b : Bundle)
  | fill (name : String) (q : Registration)
  | remove (name : String)
  | clear

/-- What a call makes of a shelf. Without an extension of the name there is nothing to take off. -/
def call (s : Shelf) : Call → Shelf
  | .register b => s.register b.extension
  | .fill name q => s.map fun x => if x.1 = name then (x.1, x.2.register q) else x
  | .remove name => match s.remove name with
    | .ok (_, s') => s'
    | .error _ => s
  | .clear => []

/-- The shelf that calls lead to, from an empty one. -/
def run (calls : List Call) : Shelf := calls.foldl call []

/-- A shelf of bundles, each under its own name. -/
structure OfBundles (s : Shelf) : Prop where
  filed : Keyed.Filed Extension.name s
  bundles : ∀ e ∈ s.all, ∃ b : Bundle, b.extension = e

theorem call_remove (s : Shelf) (name : String) :
    s.call (.remove name) = s ∨ s.call (.remove name) = Keyed.erase name s := by
  simp only [call, remove]
  cases s.lookup name with
  | none => exact .inl rfl
  | some e => exact .inr rfl

theorem OfBundles.call {s : Shelf} (h : OfBundles s) (c : Call) : OfBundles (s.call c) := by
  cases c with
  | register b =>
    refine ⟨h.filed.put b.extension, ?_⟩
    intro e he
    obtain ⟨x, hx, rfl⟩ := List.mem_map.mp he
    rcases Keyed.mem_put hx with rfl | hx
    · exact ⟨b, rfl⟩
    · exact h.bundles _ (List.mem_map_of_mem hx)
  | fill name q =>
    refine ⟨⟨?_, ?_⟩, ?_⟩
    -- A call that adds a rule to an extension leaves the names under which extensions are filed.
    · have hkeys : Keyed.keys (s.call (.fill name q)) = Keyed.keys s := by
        rw [Shelf.call, Keyed.keys, List.map_map]
        refine List.map_congr_left fun x _ => ?_
        simp only [Function.comp_apply]
        split <;> rfl
      exact hkeys ▸ h.filed.nodup
    · intro y hy
      obtain ⟨x, hx, rfl⟩ := List.mem_map.mp hy
      split
      · exact (h.filed.under x hx).trans (x.2.name_register q).symm
      · exact h.filed.under x hx
    · intro e he
      obtain ⟨y, hy, rfl⟩ := List.mem_map.mp he
      obtain ⟨x, hx, rfl⟩ := List.mem_map.mp hy
      obtain ⟨b, hb⟩ := h.bundles x.2 (List.mem_map_of_mem hx)
      split
      · exact ⟨b.fill q, by rw [b.extension_fill, hb]⟩
      · exact ⟨b, hb⟩
  | remove name =>
    rcases s.call_remove name with heq | heq
    · rwa [heq]
    · rw [heq]
      refine ⟨h.filed.erase name, fun e he => ?_⟩
      obtain ⟨x, hx, rfl⟩ := List.mem_map.mp he
      exact h.bundles _ (List.mem_map_of_mem (List.mem_of_mem_filter hx))
  | clear => exact ⟨Keyed.Filed.nil, fun e he => (List.not_mem_nil he).elim⟩

theorem ofBundles_run (calls : List Call) : OfBundles (run calls) := by
  have hfold : ∀ s, OfBundles s → OfBundles (calls.foldl call s) := by
    induction calls with
    | nil => exact fun s hs => hs
    | cons c calls ih => exact fun s hs => ih _ (hs.call c)
  exact hfold [] ⟨Keyed.Filed.nil, fun e he => (List.not_mem_nil he).elim⟩

theorem OfBundles.exists_eq {s : Shelf} (h : OfBundles s) :
    ∃ bs : List Bundle, bs.map Bundle.extension = s.all := by
  have hrange : s.all ∈ Set.range (List.map Bundle.extension) := by
    rw [Set.range_list_map]
    exact h.bundles
  exact hrange

theorem OfBundles.filed_repairs {s : Shelf} (h : OfBundles s) :
    ∀ e ∈ s.all, Keyed.Filed Repair.source e.repairs := by
  intro e he
  obtain ⟨b, rfl⟩ := h.bundles e he
  exact b.filed_extension

theorem OfBundles.names {s : Shelf} (h : OfBundles s) : (s.all.map (·.name)).Nodup :=
  h.filed.keys_eq ▸ h.filed.nodup

end Shelf

/-! ### A shelf in a registry -/

/-- Whatever calls have led to a registry and to a shelf:

* the names on the shelf are different and stand over their own extensions; an extension that is put
  there keeps the place of its name and takes nothing else away;
* the registry knows the names of the bundles that were applied to it, and of the requests that
  reached it the last one for a spelling counts;
* the shelf adds its new names, with their detections in order, and of their repairs for a spelling
  the last one;
* what is found for a spelling then is the last repair that was asked for, the bundles on the shelf
  being the last calls;
* repairs stand under their own spellings;
* the shelf, and extensions with names that were applied, add nothing any more, in whatever order. -/
theorem merged_shelf (library : Bool) (calls : List Registry.Call) (moves : List Shelf.Call) :
    let r := (Registry.opened library).run calls
    let s := Shelf.run moves
    let r' := r.applyAll s.all
    (Keyed.keys s).Nodup ∧ (∀ x ∈ s, x.1 = x.2.name) ∧
    (∀ e : Extension,
      Keyed.keys (s.register e) =
        (if e.name ∈ Keyed.keys s then Keyed.keys s else Keyed.keys s ++ [e.name]) ∧
      ∀ name, (s.register e).lookup name = if name = e.name then some e else s.lookup name) ∧
    (∀ name, name ∈ r.applied ↔ ∃ b, .apply b ∈ calls ∧ b.name = name) ∧
    (∀ source, r.repair? source = lastRepair? source (Registry.arrived [] calls)) ∧
    r.Merged s.all r' ∧
    (∃ bs : List Bundle, bs.map Bundle.extension = s.all ∧ ∀ source,
      r'.repair? source =
        lastRepair? source (Registry.arrived [] (calls ++ bs.map .apply))) ∧
    (∀ x ∈ r.repairs, x.1 = x.2.source) ∧ (∀ x ∈ r'.repairs, x.1 = x.2.source) ∧
    ∀ es : List Extension, (∀ e ∈ es, e ∈ s.all ∨ e.name ∈ r'.applied) → r'.applyAll es = r' := by
  intro r s r'
  obtain ⟨hrepairs, happlied⟩ := Registry.opened_eq library
  have hs : s.OfBundles := Shelf.ofBundles_run moves
  have hfiled : Keyed.Filed Repair.source r.repairs :=
    Registry.filed_run (hrepairs ▸ Keyed.Filed.nil) calls
  have hlast : ∀ (calls : List Registry.Call) (source : String),
      ((Registry.opened library).run calls).repair? source =
        lastRepair? source (Registry.arrived [] calls) := by
    intro calls source
    rw [Registry.repair?_run, happlied, Registry.repair?, hrepairs, List.lookup_nil,
      Option.or_none]
  -- What the shelf holds, what the registry holds, and what becomes of the registry with the shelf's.
  refine ⟨hs.filed.nodup, hs.filed.under, fun e => ⟨Keyed.keys_put _ _ _, Keyed.lookup_put _ _ _⟩,
    fun name => ?_, hlast calls, Registry.merged_applyAll r s.all hs.names hs.filed_repairs, ?_,
    hfiled.under, (Registry.filed_applyAll hfiled s.all).under, fun es hes => ?_⟩
  · rw [Registry.mem_applied_run, happlied]
    simp
  · obtain ⟨bs, hbs⟩ := hs.exists_eq
    refine ⟨bs, hbs, fun source => ?_⟩
    rw [← hlast, Registry.run_append, Registry.run_apply, hbs]
  · refine Registry.applyAll_of_applied fun e he => ?_
    rcases hes e he with hmem | hname
    · exact (Registry.mem_applied_applyAll r s.all e.name).mpr (.inr ⟨e, hmem, rfl⟩)
    · exact hname

/-- A bundle on the shelf that is filled later, one that takes the place of an applied one, and a
spelling that cannot be read. -/
theorem merged_shelf_clocks :
    let clock (text : String) : Registration := .repair {} "now" (.template text) true
    let calls : List Registry.Call :=
      [.register (clock "today"), .apply { name := "clocks", requests := [clock "zone"] }]
    let moves : List Shelf.Call :=
      [.register { name := "dates", requests := [.detection {} "(" "unread" "*.rb" none] },
        .register { name := "clocks", requests := [clock "never"] }, .fill "dates" (clock "current"),
        .fill "dates" (.detection {} "utc" "Read the zone" "*.rb" none)]
    let r := (Registry.opened false).run calls
    let s := Shelf.run moves
    let r' := r.applyAll s.all
    r'.applied = ["clocks", "dates"] ∧ r'.detections.map (·.message) = ["Read the zone"] ∧
    (∀ e ∈ s.all.reverse, e ∈ s.all ∨ e.name ∈ r'.applied) ∧
    r'.applyAll s.all.reverse = r' := by
  intro clock calls moves r s r'
  have hmem : ∀ e ∈ s.all.reverse, e ∈ s.all ∨ e.name ∈ r'.applied :=
    fun e he => .inl (List.mem_reverse.mp he)
  obtain ⟨-, -, -, -, -, -, -, -, -, hagain⟩ := merged_shelf false calls moves
  exact ⟨by decide +kernel, by decide +kernel, hmem, hagain _ hmem⟩

end RailsUpgrade

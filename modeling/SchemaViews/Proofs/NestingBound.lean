import SchemaViews.Proofs.Reopening

/-!
# A bound on nested merges

A fragment that is reopened holds what its parts held, one level further in,
and what the components that its parts refer to held.  So it is enough that no
component leads back to itself through the parts of its compositions: each
component gets a limit, above those of all that its parts refer to by more than
its depth, and each merge on the way in takes one away from what is left.
-/

namespace SchemaViews
namespace Value

/-- A schema that is a reference to a component. -/
def Marks (v : Value) (name : String) : Prop :=
  ∃ (entries : Entries) (target : Reference), v = .map entries ∧
    entries.reference? = some target ∧ target.name = name

/-- A schema that refers, if it does, to a component of a limit. -/
def RefersWithin (limit : String → ℕ) (room : ℕ) (v : Value) : Prop :=
  ∀ name, v.Marks name → limit name ≤ room

def Bare : Value → Prop :=
  Shaped fun key _ => key ∉ [Scalar.str "properties", .str "items",
    .str "oneOf", .str "allOf", .str "anyOf"]

/-- A schema that holds schemas to a given depth, with less and less room for
the limits of the components that the parts of its compositions refer to.
Tagging an alternative puts a bare schema into it, so these take no room. -/
def Fits (limit : String → ℕ) : ℕ → Value → Prop
  | 0, v => (∃ entries, v = .map entries) ∧ (∀ inner, v.Holds inner → inner.Bare) ∧
      ∀ part, ¬ v.Combines part
  | room + 1, v => (∃ entries, v = .map entries) ∧
      (∀ inner, v.Holds inner → Fits limit room inner) ∧
      ∀ part, v.Combines part → part.RefersWithin limit room

theorem Bare.not_holds {v inner : Value} (h : v.Bare) : ¬ v.Holds inner := by
  obtain ⟨entries, rfl, hentries⟩ := h
  intro hinner
  obtain ⟨entry, hentry, hheld⟩ := holds_iff_entry.mp hinner
  exact hentries entry hentry (key_of_holds_entry hheld)

theorem Bare.merge {old new : Value} (hold : old.Bare) (hnew : new.Bare) :
    (Value.merge old new).Bare :=
  shaped_merge (fun _ hkey _ => hkey) hold hnew

variable {limit : String → ℕ} {room : ℕ}

theorem RefersWithin.mono {larger : ℕ} {v : Value} (h : v.RefersWithin limit room)
    (hle : room ≤ larger) : v.RefersWithin limit larger :=
  fun name hname => (h name hname).trans hle

namespace Fits

theorem exists_map {v : Value} (h : v.Fits limit room) :
    ∃ entries, v = .map entries := by
  cases room with
  | zero => exact h.1
  | succ room => exact h.1

theorem of_bare {v : Value} (h : v.Bare) : v.Fits limit room := by
  have hmap : ∃ entries, v = .map entries := by
    obtain ⟨entries, rfl, _⟩ := h
    exact ⟨entries, rfl⟩
  cases room with
  | zero =>
      refine ⟨hmap, fun inner hinner => absurd hinner h.not_holds, ?_⟩
      exact fun part hpart => h.not_holds (.part hpart)
  | succ room =>
      refine ⟨hmap, fun inner hinner => absurd hinner h.not_holds, ?_⟩
      exact fun part hpart => absurd (.part hpart) h.not_holds

theorem succ {v : Value} (h : v.Fits limit room) : v.Fits limit (room + 1) := by
  induction room generalizing v with
  | zero =>
      refine ⟨h.1, fun inner hinner => of_bare (h.2.1 inner hinner), ?_⟩
      exact fun part hpart => absurd hpart (h.2.2 part)
  | succ room ih =>
      refine ⟨h.1, fun inner hinner => ih (h.2.1 inner hinner), ?_⟩
      exact fun part hpart => (h.2.2 part hpart).mono (Nat.le_succ room)

theorem mono {larger : ℕ} {v : Value} (h : v.Fits limit room)
    (hle : room ≤ larger) : v.Fits limit larger := by
  induction hle with
  | refl => exact h
  | step _ ih => exact ih.succ

theorem inside {v inner : Value} (h : v.Fits limit room)
    (hinner : v.Holds inner) : inner.Fits limit room := by
  cases room with
  | zero => exact of_bare (h.2.1 inner hinner)
  | succ room => exact (h.2.1 inner hinner).succ

theorem part {v part : Value} (h : v.Fits limit room)
    (hpart : v.Combines part) : part.RefersWithin limit room := by
  cases room with
  | zero => exact absurd hpart (h.2.2 part)
  | succ room => exact (h.2.2 part hpart).mono (Nat.le_succ room)

theorem of_held {entries : Entries} {v : Value} (h : v.Fits limit room)
    (hholds : ∀ inner, Holds (.map entries) inner → v.Holds inner ∨ inner.Bare)
    (hcombines : ∀ part, Combines (.map entries) part → v.Combines part) :
    (Value.map entries).Fits limit room := by
  cases room with
  | zero =>
      refine ⟨⟨entries, rfl⟩, fun inner hinner => ?_, ?_⟩
      · rcases hholds inner hinner with hheld | hbare
        · exact h.2.1 inner hheld
        · exact hbare
      · exact fun part hpart => h.2.2 part (hcombines part hpart)
  | succ room =>
      refine ⟨⟨entries, rfl⟩, fun inner hinner => ?_, ?_⟩
      · rcases hholds inner hinner with hheld | hbare
        · exact h.2.1 inner hheld
        · exact of_bare hbare
      · exact fun part hpart => h.2.2 part (hcombines part hpart)

theorem mergeEntries {left right : Entries}
    (hleft : (Value.map left).Fits limit room)
    (hright : (Value.map right).Fits limit room) :
    (Value.map (Value.mergeEntries left right)).Fits limit room := by
  induction hsize : (Value.map right).size using Nat.strongRecOn
    generalizing left right room with
  | ind size ih =>
      cases room with
      | zero =>
          refine ⟨⟨_, rfl⟩, ?_, fun part hpart => ?_⟩
          · exact forall_holds_mergeEntries hleft.2.1 hright.2.1
              fun old new hold _ hnew => hold.merge hnew
          · rcases combines_mergeEntries hpart with hpart | hpart
            · exact hleft.2.2 part hpart
            · exact hright.2.2 part hpart
      | succ room =>
          refine ⟨⟨_, rfl⟩, ?_, fun part hpart => ?_⟩
          · refine forall_holds_mergeEntries hleft.2.1 hright.2.1 ?_
            intro old new hold hnew hinside
            obtain ⟨before, rfl⟩ := hold.exists_map
            obtain ⟨after, rfl⟩ := hinside.exists_map
            rw [merge]
            exact ih _ (hsize ▸ hnew.size_lt) hold hinside rfl
          · rcases combines_mergeEntries hpart with hpart | hpart
            · exact hleft.2.2 part hpart
            · exact hright.2.2 part hpart

end Fits

/-! ## Fitting schemas made out of others -/

theorem Fits.setField {entries : Entries} {name : String} {v : Value}
    (h : (Value.map entries).Fits limit room) (hname : name ∉ compositionKeys)
    (hv : ∀ inner, Holds (.map [(.str name, v)]) inner →
      Holds (.map entries) inner ∨ inner.Bare) :
    (Value.map (entries.setField name v)).Fits limit room := by
  refine h.of_held (fun inner hinner => ?_) fun part hpart => ?_
  · rcases holds_of_setField hinner with hold | hnew
    · exact .inl hold
    · exact hv inner hnew
  · exact combines_of_setField hname hpart

theorem bare_tagSchema (tag : Scalar) : (Discriminator.tagSchema tag).Bare :=
  shaped_map_iff.mpr (by simp)

theorem fits_retag {flat : Entries} {name tag : Scalar}
    (h : (Value.map flat).Fits limit room) :
    (Value.map (Discriminator.retag flat name tag)).Fits limit room := by
  refine h.setField (by simp [compositionKeys]) fun inner hinner => ?_
  obtain ⟨key, hmem⟩ := holds_properties hinner
  rcases OrderedMap.mem_insert hmem with hold | hnew
  · left
    obtain ⟨table, hfield, hmem⟩ := Discriminator.mem_propertyTable hold
    exact .property (OrderedMap.mem_of_find? hfield) hmem
  · right
    cases hnew
    exact bare_tagSchema tag

theorem fits_tagObject (name tag : Scalar) :
    (Discriminator.tagObject name tag).Fits limit room := by
  have hempty : (Value.map []).Bare := shaped_map_iff.mpr (by simp)
  refine (Fits.of_bare hempty).of_held (fun inner hinner => .inr ?_) ?_
  · obtain ⟨entry, hentry, hheld⟩ := holds_iff_entry.mp hinner
    simp only [List.mem_cons, List.not_mem_nil, or_false] at hentry
    rcases hentry with rfl | rfl | rfl
    · simpa using key_of_holds_entry hheld
    · obtain ⟨key, hmem⟩ := holds_properties hheld
      cases List.mem_singleton.mp hmem
      exact bare_tagSchema tag
    · simpa using key_of_holds_entry hheld
  · intro part hpart
    refine absurd hpart (not_combines_of_keys ?_ part)
    simp [compositionKeys]

theorem fits_invariant : SchemaInvariant (Fits limit room) where
  empty := .of_bare (shaped_map_iff.mpr (by simp))
  inside := Fits.inside
  merge := Fits.mergeEntries
  drop := by
    intro entries key h
    refine h.of_held (fun inner hinner => .inl ?_) fun part hpart => ?_
    · exact hinner.mono fun _ => Entries.mem_of_mem_dropField
    · exact hpart.mono fun _ => Entries.mem_of_mem_dropField
  settle := by
    intro entries h
    rcases Fragment.settle_eq_or entries with hsame | ⟨_, kind, nullable, _, hsettle, _⟩
    · rwa [hsame]
    · have hplain : ∀ name : String, ∀ v inner, name = "type" ∨ name = "nullable" →
          ¬ Holds (.map [(.str name, v)]) inner := by
        rintro name v inner (rfl | rfl) hinner
        · simpa using key_of_holds_entry hinner
        · simpa using key_of_holds_entry hinner
      rw [hsettle]
      refine Fits.setField (h.setField ?_ ?_) ?_ ?_
      · simp [compositionKeys]
      · exact fun inner hinner => absurd hinner (hplain _ _ _ (.inl rfl))
      · simp [compositionKeys]
      · exact fun inner hinner => absurd hinner (hplain _ _ _ (.inr rfl))
  kind := fun _ _ _ => .of_bare (shaped_map_iff.mpr (by simp))
  retag := fun hflat _ => fits_retag hflat

/-- A schema that can be merged into one that fits. -/
def Mergeable (limit : String → ℕ) (room : ℕ) (v : Value) : Prop :=
  v.Fits limit room ∧ v.RefersWithin limit room

theorem Mergeable.mono {larger : ℕ} {v : Value} (h : v.Mergeable limit room)
    (hle : room ≤ larger) : v.Mergeable limit larger :=
  ⟨h.1.mono hle, h.2.mono hle⟩

theorem Fits.mergeable_of_plain {entries : Entries}
    (h : (Value.map entries).Fits limit room)
    (hreference : entries.reference? = none) :
    (Value.map entries).Mergeable limit room := by
  refine ⟨h, ?_⟩
  rintro name ⟨_, target, hentries, htarget, _⟩
  cases hentries
  rw [hreference] at htarget
  cases htarget

theorem Fits.mergeable_inside {v part : Value} (h : v.Fits limit room)
    (hpart : v.Combines part) : part.Mergeable limit room :=
  ⟨h.inside (.part hpart), h.part hpart⟩

theorem Fits.mergeable_part {v part : Value} (h : v.Fits limit (room + 1))
    (hpart : v.Combines part) : part.Mergeable limit room :=
  ⟨h.2.1 part (.part hpart), h.2.2 part hpart⟩

theorem mergeable_tagObject (name tag : Scalar) :
    (Discriminator.tagObject name tag).Mergeable limit room :=
  Fits.mergeable_of_plain (fits_tagObject name tag) rfl

end Value

/-! ## Going inwards -/

def Arena.Limited (arena : Arena) (limit : String → ℕ) : Prop :=
  ∀ name schema, OrderedMap.find? arena name = some schema →
    schema.Mergeable limit (limit name)

section Limited

variable {limit : String → ℕ} {room : ℕ}

theorem Arena.Limited.expandable {arena : Arena} (h : arena.Limited limit)
    (room : ℕ) :
    arena.Expandable (Value.Mergeable limit room) (Value.Fits limit room) where
  holds := fun hschema => hschema.1
  part := fun hschema hpart => hschema.1.mergeable_inside hpart
  target := by
    intro raw target schema hraw hreference hfind
    have hle := hraw.2 target.name ⟨raw, target, rfl, hreference, rfl⟩
    exact (h _ _ hfind).mono hle

namespace Fragment

variable {notes : Annotations}

theorem mergeable_of_read {source : Value} {part : Fragment}
    (hsource : source.Mergeable limit room)
    (hread : Fragment.read source = .ok part) :
    part.rawValue.Mergeable limit room := by
  obtain ⟨schema, rfl, hreading⟩ := reading_of_read hread
  unfold rawValue
  rcases raw_of_reading hreading with hraw | ⟨hraw, _⟩
  · rw [hraw]
    refine ⟨Value.fits_invariant.settle hsource.1, ?_⟩
    rintro name ⟨_, target, hentries, htarget, rfl⟩
    cases hentries
    rw [reference?_settle] at htarget
    exact hsource.2 _ ⟨schema, target, rfl, htarget, rfl⟩
  · rw [hraw]
    exact hsource

theorem From.mergeable_part {Q : Value → Prop}
    (hQ : ∀ {schema part : Value}, Q schema → schema.Combines part →
      part.Mergeable limit room) {parts : List Fragment}
    (h : (Fragment.allOf notes parts).From Q ∨ (Fragment.anyOf notes parts).From Q)
    {part : Fragment} (hpart : part ∈ parts) :
    part.rawValue.Mergeable limit room := by
  obtain ⟨schema, hschema, hreading⟩ := From.parts_reading h
  obtain ⟨source, hsource, hread⟩ := Reading.part hreading hpart
  exact mergeable_of_read (hQ hschema hsource) hread

theorem From.mergeable_option {options : List Fragment} {d : Discriminator}
    (h : (Fragment.oneOf notes options (some d)).From
      (Value.Fits limit (room + 1))) {option : Fragment}
    (hoption : option ∈ options) : option.rawValue.Mergeable limit room := by
  obtain ⟨schema, hschema, hreading⟩ := h.reading
  rcases hreading.option hoption with ⟨part, hpart, hread⟩ | ⟨hnone, _⟩
  · exact mergeable_of_read (hschema.mergeable_part hpart) hread
  · cases hnone

theorem Reading.siblings_reference? {schema : Entries} {parts : List Fragment}
    (h : Reading schema (.allOf notes parts)) :
    (notes.raw.dropField "allOf").reference? = none := by
  cases h with
  | allOf hreference =>
      rw [← reference?_settle schema] at hreference
      unfold Entries.reference? at hreference ⊢
      rw [Entries.field?_dropField, if_neg (by decide)]
      exact hreference

/-- Each fragment that is reopened has less room than the one at hand. -/
theorem From.fits_reopens {s : Scope} (harena : s.context.arena.Limited limit)
    {fragment whole : Fragment}
    (hfragment : fragment.From (Value.Fits limit (room + 1)))
    (h : s.Reopens fragment whole) : whole.From (Value.Fits limit room) := by
  have hmerged : ∀ {schemas : List Value} {flat : Entries},
      (∀ schema ∈ schemas, schema.Mergeable limit room) →
        (s.context.arena.merge schemas).result = .ok flat →
          (Value.map flat).Fits limit room := fun hschemas hflat =>
    (harena.expandable room).merge Value.fits_invariant hschemas hflat
  -- the fragments on the way in keep the room of the one at hand; what is
  -- merged at last stands inside one of them
  induction h with
  | allOf hflat hread =>
      refine from_of_read (hmerged ?_ hflat) hread
      intro schema hschema
      obtain ⟨part, hpart, rfl⟩ := List.mem_map.mp hschema
      exact From.mergeable_part Value.Fits.mergeable_part (.inl hfragment) hpart
  | anyOf hflat hread =>
      refine from_of_read (Value.fits_invariant.drop _ (hmerged ?_ hflat)) hread
      intro schema hschema
      obtain ⟨part, hpart, rfl⟩ := List.mem_map.mp hschema
      exact From.mergeable_part Value.Fits.mergeable_part (.inr hfragment) hpart
  | @field notes inner properties required name parts shown hentry hshown _ =>
      obtain ⟨schema, hschema, hreading⟩ := hfragment.reading
      obtain ⟨property, hproperty, hread⟩ := hreading.property hentry
      -- the keys beside an allOf are no level further in than its parts, but
      -- the property itself is
      have hproperty : (Fragment.allOf inner parts).From (Value.Fits limit room) :=
        from_of_read (hschema.2.1 property hproperty) hread
      obtain ⟨flat, hflat, hreadFlat⟩ := bind_eq_ok_iff.mp hshown
      refine from_of_read (hmerged ?_ hflat) hreadFlat
      intro schema hschema
      rcases List.mem_append.mp hschema with hmem | hsiblings
      · obtain ⟨part, hpart, rfl⟩ := List.mem_map.mp hmem
        exact From.mergeable_part Value.Fits.mergeable_inside (.inl hproperty) hpart
      · rw [List.mem_singleton.mp hsiblings]
        have hraw := hproperty.raw Value.fits_invariant
        obtain ⟨source, _, hreading⟩ := hproperty.reading
        refine Value.Fits.mergeable_of_plain (Value.fits_invariant.drop _ hraw) ?_
        exact hreading.siblings_reference?
  | property hentry _ _ _ ih =>
      exact ih (hfragment.property Value.fits_invariant hentry)
  | items _ ih => exact ih (hfragment.items Value.fits_invariant)
  | option hoption _ ih => exact ih (hfragment.option Value.fits_invariant hoption)
  | untagged hoption _ _ ih =>
      exact ih (hfragment.option Value.fits_invariant hoption)
  | tagged hoption _ hflat hread =>
      refine from_of_read ((harena.expandable room).taggedOption
        Value.fits_invariant ?_ ?_ hflat) hread
      · exact hfragment.mergeable_option hoption
      · exact fun name _ => Value.mergeable_tagObject name _

/-! ## At the innermost schemas -/

theorem From.parts_not_bare {parts : List Fragment}
    (h : (Fragment.allOf notes parts).From Value.Bare ∨
      (Fragment.anyOf notes parts).From Value.Bare) : False := by
  obtain ⟨schema, hschema, hreading⟩ := From.parts_reading h
  have hentries := Value.shaped_map_iff.mp hschema
  rcases hreading with hreading | hreading
  · cases hreading with
    | allOf _ _ _ hall =>
        have hkey := hentries _ (OrderedMap.mem_of_find? hall)
        simp at hkey
  · cases hreading with
    | anyOf _ _ _ _ hany =>
        have hkey := hentries _ (OrderedMap.mem_of_find? hany)
        simp at hkey

theorem From.not_reopens_of_bare {s : Scope} {fragment whole : Fragment}
    (hfragment : fragment.From Value.Bare) : ¬ s.Reopens fragment whole := by
  intro h
  induction h with
  | allOf => exact From.parts_not_bare (.inl hfragment)
  | anyOf => exact From.parts_not_bare (.inr hfragment)
  | field hentry =>
      obtain ⟨schema, hschema, hreading⟩ := hfragment.reading
      obtain ⟨property, hproperty, _⟩ := hreading.property hentry
      exact hschema.not_holds hproperty
  | property hentry =>
      obtain ⟨schema, hschema, hreading⟩ := hfragment.reading
      obtain ⟨property, hproperty, _⟩ := hreading.property hentry
      exact hschema.not_holds hproperty
  | items =>
      obtain ⟨schema, hschema, hreading⟩ := hfragment.reading
      obtain ⟨inner, hinner, _⟩ := hreading.items
      exact hschema.not_holds hinner
  | option hoption _ ih =>
      obtain ⟨schema, hschema, hreading⟩ := hfragment.reading
      rcases hreading.option hoption with ⟨part, hpart, _⟩ | ⟨_, _, kind, _, _, hread⟩
      · exact hschema.not_holds (.part hpart)
      · exact ih (from_of_read (Value.shaped_map_iff.mpr (by simp)) hread)
  | untagged hoption | tagged hoption =>
      obtain ⟨schema, hschema, hreading⟩ := hfragment.reading
      rcases hreading.option hoption with ⟨part, hpart, _⟩ | ⟨hnone, _⟩
      · exact hschema.not_holds (.part hpart)
      · cases hnone

theorem Reading.parts_eq_nil {schema : Entries} {parts : List Fragment}
    (h : Reading schema (.allOf notes parts) ∨ Reading schema (.anyOf notes parts))
    (hparts : ∀ part, ¬ (Value.map schema).Combines part) : parts = [] := by
  apply List.eq_nil_iff_forall_not_mem.mpr
  intro part hpart
  obtain ⟨source, hsource, _⟩ := Reading.part h hpart
  exact hparts source hsource

/-- Without room only the merge of no parts is reopened, and nothing in it. -/
theorem From.not_reopens_twice {s : Scope} {fragment whole next : Fragment}
    (hfragment : fragment.From (Value.Fits limit 0))
    (h : s.Reopens fragment whole) : ¬ s.Reopens whole next := by
  obtain ⟨schema, ⟨_, hheld, hparts⟩, hreading⟩ := hfragment.reading
  have hempty : ∀ {whole : Fragment}, Fragment.read (.map []) = .ok whole →
      ¬ s.Reopens whole next := fun hread =>
    From.not_reopens_of_bare (from_of_read (Value.shaped_map_iff.mpr (by simp)) hread)
  have hbare : ∀ {inner : Value} {fragment whole : Fragment},
      (Value.map schema).Holds inner → Fragment.read inner = .ok fragment →
        ¬ s.Reopens fragment whole := fun hinner hread =>
    From.not_reopens_of_bare (from_of_read (hheld _ hinner) hread)
  cases h with
  | allOf hflat hread =>
      have hnone := Reading.parts_eq_nil (.inl hreading) hparts
      subst hnone
      cases hflat
      exact hempty hread
  | anyOf hflat hread =>
      have hnone := Reading.parts_eq_nil (.inr hreading) hparts
      subst hnone
      cases hflat
      exact hempty hread
  | field hentry hshown =>
      obtain ⟨property, hproperty, hread⟩ := hreading.property hentry
      have hbare := from_of_read (hheld property hproperty) hread
      exact (From.parts_not_bare (.inl hbare)).elim
  | property hentry _ _ hinner =>
      obtain ⟨property, hproperty, hread⟩ := hreading.property hentry
      exact absurd hinner (hbare hproperty hread)
  | items hinner =>
      obtain ⟨inner, hitems, hread⟩ := hreading.items
      exact absurd hinner (hbare hitems hread)
  | option hoption hinner =>
      rcases hreading.option hoption with ⟨part, hpart, _⟩ | ⟨_, _, kind, _, _, hread⟩
      · exact absurd hpart (hparts part)
      · refine absurd hinner (From.not_reopens_of_bare (from_of_read ?_ hread))
        exact Value.shaped_map_iff.mpr (by simp)
  | untagged hoption | tagged hoption =>
      rcases hreading.option hoption with ⟨part, hpart, _⟩ | ⟨hnone, _⟩
      · exact absurd hpart (hparts part)
      · cases hnone

end Fragment

namespace Scope

variable {s : Scope}

theorem Nests.of_succ {depth : ℕ} {fragment : Fragment}
    (h : s.Nests (depth + 1) fragment) : s.Nests depth fragment := by
  induction depth generalizing fragment with
  | zero => trivial
  | succ depth ih =>
      obtain ⟨whole, hreopens, hwhole⟩ := h
      exact ⟨whole, hreopens, ih hwhole⟩

theorem Nests.mono {depth deeper : ℕ} (hle : depth ≤ deeper) {fragment : Fragment}
    (h : s.Nests deeper fragment) : s.Nests depth fragment := by
  induction hle with
  | refl => exact h
  | step _ ih => exact ih h.of_succ

theorem not_nests_of_fits (harena : s.context.arena.Limited limit)
    {fragment : Fragment} (hfragment : fragment.From (Value.Fits limit room)) :
    ¬ s.Nests (room + 2) fragment := by
  induction room generalizing fragment with
  | zero =>
      rintro ⟨whole, hwhole, next, hnext, _⟩
      exact hfragment.not_reopens_twice hwhole hnext
  | succ room ih =>
      rintro ⟨whole, hwhole, hnests⟩
      exact ih (hfragment.fits_reopens harena hwhole) hnests

end Scope

end Limited

end SchemaViews

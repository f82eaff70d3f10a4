import QsAi.Foundation.JsonForm
import QsAi.Foundation.JsonWeight
import QsAi.Maintenance.PromptInventory

/-! The audit of references to the retired prompts. A prompt is kept when any row
may name it: by one of its digests, by its identity without a version, or with a
version that is its own or that cannot be read. -/
namespace QsAi

open PyJson

namespace PromptRetirement

/-- The identity of the published suite, which holds the name of the prompts. -/
def publishedSuite : Text := text (templateId ++ "-v6-published")

/-- A prompt that the policy names, with the digests that identify it; they are
empty where they are not known. -/
structure RetiredAsset where
  version : Text
  fingerprint : Text
  packageSha256 : Text
  known : version ∈ versions.map text

/-- Fields that name a prompt, and fields that name its version. -/
structure FieldGroup where
  identities : List String
  versions : List String

def templateFields : FieldGroup := ⟨["prompt_template_id"], ["prompt_version"]⟩

def identityFields : FieldGroup := ⟨["id", "identity", "template_id", "TemplateID"], ["version", "Version"]⟩

/-- A version qualifies an identity of its own group alone. -/
def fieldGroups : List FieldGroup := [templateFields, identityFields]

def isText (value : Value) (expected : Text) : Bool :=
  match value with
  | .string value => value == expected
  | _ => false

/-- The field is the known identity of the published suite. -/
def knownSuite (field : Text × Value) : Bool :=
  ["suite_id", "id", "identity"].any (fun key => field.1 == text key) && isText field.2 publishedSuite

namespace FieldGroup

variable (group : FieldGroup)

def identifies (field : Text × Value) : Bool :=
  group.identities.any (fun key => field.1 == text key) && isText field.2 (text templateId)

def versionField (field : Text × Value) : Bool := group.versions.any fun key => field.1 == text key

def versionsOf (fields : List (Text × Value)) : List Value := (fields.filter group.versionField).map (·.2)

end FieldGroup

namespace RetiredAsset

variable (asset : RetiredAsset)

/-- The versions are one readable version of another prompt. -/
def qualified (versions : List Value) : Bool :=
  match versions.mapM Value.asText with
  | none => false
  | some texts => !texts.isEmpty && texts.all (· != []) && texts.dedup.length == 1 && !texts.contains asset.version

/-- The fields without a qualified identity; none when the identity is not
qualified. -/
def strip (fields : List (Text × Value)) (group : FieldGroup) : Option (List (Text × Value)) :=
  if fields.any group.identifies then
    if asset.qualified (group.versionsOf fields) then
      some (fields.filter fun field => !(group.identifies field || group.versionField field))
    else none
  else some fields

/-- The fields that are searched. -/
def searched (fields : List (Text × Value)) : Option (List (Text × Value)) :=
  fieldGroups.foldlM asset.strip (fields.filter fun field => !knownSuite field)

/-- A digest of the asset occurs in the text. -/
def named (value : Text) : Bool :=
  [asset.fingerprint, asset.packageSha256].any fun token => !token.isEmpty && decide (token <:+: value)

/-- The search, as deep as the value weighs. -/
def refers : Nat → Value → Bool
  | 0, _ => false
  | fuel + 1, .object fields =>
      match asset.searched fields with
      | none => true
      | some kept => kept.any fun field => refers fuel field.2
  | fuel + 1, .array items => items.any fun item => refers fuel item
  | fuel + 1, .string value =>
      if asset.named value then true
      else
        match loads overwrite none value with
        | .ok (.object fields) => refers fuel (.object fields)
        | .ok (.array items) => refers fuel (.array items)
        | _ => decide (text templateId <:+: value)
  | _ + 1, _ => false

/-- Unknown and unversioned uses keep the asset. -/
def references (value : Value) : Bool := asset.refers (weight value) value

/-! The search without its bound. -/

variable {asset : RetiredAsset}

theorem strip_subset {fields kept : List (Text × Value)} {group : FieldGroup} (h : asset.strip fields group = some kept) :
    kept ⊆ fields := by
  unfold strip at h
  split at h
  · split at h
    · cases h
      exact List.filter_subset_self _
    · cases h
  · cases h
    exact List.Subset.refl _

theorem searched_subset {fields kept : List (Text × Value)} (h : asset.searched fields = some kept) : kept ⊆ fields := by
  simp only [searched, fieldGroups, List.foldlM_cons, List.foldlM_nil, Option.bind_eq_bind, Option.bind_eq_some_iff] at h
  obtain ⟨first, hFirst, second, hSecond, hKept⟩ := h
  cases hKept
  exact fun field hField => List.filter_subset_self _ (strip_subset hFirst (strip_subset hSecond hField))

/-- More fuel than the value weighs changes nothing. -/
theorem refers_stable (asset : RetiredAsset) (n : Nat) : ∀ {m : Nat} {value : Value}, weight value ≤ n → weight value ≤ m →
    asset.refers n value = asset.refers m value := by
  induction n with
  | zero => exact fun {_ value} h _ => absurd (weight_pos value) (by omega)
  | succ n ih =>
      intro m value hFirst hSecond
      have hPos := weight_pos value
      obtain ⟨m, rfl⟩ : ∃ less, m = less + 1 := ⟨m - 1, by omega⟩
      match value with
      | .null => rfl
      | .bool _ => rfl
      | .int _ => rfl
      | .float _ => rfl
      | .object fields =>
          rw [weight] at hFirst hSecond
          rw [refers, refers]
          cases hSearched : asset.searched fields with
          | none => rfl
          | some kept =>
              rw [Bool.eq_iff_iff]
              simp only [List.any_eq_true]
              refine exists_congr fun field => and_congr_right fun hField => ?_
              have hLess := fieldsWeight_mem (searched_subset hSearched hField)
              rw [ih (by omega) (show weight field.2 ≤ m by omega)]
      | .array items =>
          rw [weight] at hFirst hSecond
          rw [refers, refers, Bool.eq_iff_iff, List.any_eq_true, List.any_eq_true]
          refine exists_congr fun item => and_congr_right fun hItem => ?_
          have hLess := itemsWeight_mem hItem
          rw [ih (by omega) (show weight item ≤ m by omega)]
      | .string value =>
          rw [weight] at hFirst hSecond
          rw [refers, refers]
          split
          · rfl
          · split
            · rename_i hLoads
              have hLess := loads_weight hLoads
              exact ih (by omega) (by omega)
            · rename_i hLoads
              have hLess := loads_weight hLoads
              exact ih (by omega) (by omega)
            · rfl

/-- The fields that are left are searched one by one. -/
theorem references_object (asset : RetiredAsset) (fields : List (Text × Value)) :
    asset.references (.object fields) = true ↔
      ∀ kept, asset.searched fields = some kept → ∃ field ∈ kept, asset.references field.2 = true := by
  rw [references, weight, refers]
  cases hSearched : asset.searched fields with
  | none => simp
  | some kept =>
      simp only [Option.some.injEq, forall_eq', List.any_eq_true]
      refine exists_congr fun field => and_congr_right fun hField => ?_
      rw [references, refers_stable asset _ (fieldsWeight_mem (searched_subset hSearched hField)) (Nat.le_refl _)]

theorem references_array (asset : RetiredAsset) (items : List Value) :
    asset.references (.array items) = true ↔ ∃ item ∈ items, asset.references item = true := by
  rw [references, weight, refers, List.any_eq_true]
  refine exists_congr fun item => and_congr_right fun hItem => ?_
  rw [references, refers_stable asset _ (itemsWeight_mem hItem) (Nat.le_refl _)]

/-- Objects and lists, which a text can hold. -/
def Container : Value → Prop
  | .object _ | .array _ => True
  | _ => False

theorem references_named {value : Text} (h : asset.named value = true) : asset.references (.string value) = true := by
  rw [references, weight, refers, if_pos h]

/-- A text is searched like the object or list that it spells. -/
theorem references_text {value : Text} {inner : Value} (hLoads : loads overwrite none value = .ok inner)
    (hContainer : Container inner) (h : asset.references inner = true) : asset.references (.string value) = true := by
  have hWeight := loads_weight hLoads
  rw [references, weight, refers]
  split
  · rfl
  rw [hLoads]
  cases inner with
  | object fields =>
      simp only
      rw [refers_stable asset _ hWeight (Nat.le_refl _)]
      exact h
  | array items =>
      simp only
      rw [refers_stable asset _ hWeight (Nat.le_refl _)]
      exact h
  | _ => cases hContainer

/-! What keeps an asset. -/

/-- The versions of an identity are missing, not texts, empty, contradictory or
the asset's own. -/
def Doubtful (asset : RetiredAsset) (versions : List Value) : Prop :=
  versions = [] ∨ (∃ version ∈ versions, ∀ word, version = .string word → word = []) ∨
    (∃ first ∈ versions, ∃ second ∈ versions, first ≠ second) ∨ .string asset.version ∈ versions

/-- One text stands alone when no two differ. -/
theorem dedup_single {texts : List Text} (hSome : texts ≠ []) :
    texts.dedup.length = 1 ↔ ∀ first ∈ texts, ∀ second ∈ texts, first = second := by
  constructor
  · intro h first hFirst second hSecond
    obtain ⟨only, hOnly⟩ := List.length_eq_one_iff.mp h
    rw [← List.mem_dedup, hOnly, List.mem_singleton] at hFirst hSecond
    rw [hFirst, hSecond]
  · intro h
    obtain ⟨word, hWord⟩ := List.exists_mem_of_ne_nil texts hSome
    cases hDedup : texts.dedup with
    | nil =>
        rw [← List.mem_dedup, hDedup] at hWord
        cases hWord
    | cons first rest =>
        cases rest with
        | nil => rfl
        | cons second rest =>
            have hNodup := texts.nodup_dedup
            rw [hDedup, List.nodup_cons] at hNodup
            have hFirst : first ∈ texts := List.mem_dedup.mp (hDedup ▸ List.mem_cons_self)
            have hSecond : second ∈ texts := List.mem_dedup.mp (hDedup ▸ List.mem_cons_of_mem _ List.mem_cons_self)
            exact absurd (h first hFirst second hSecond ▸ List.mem_cons_self) hNodup.1

theorem all_texts {versions : List Value} (h : ∀ version ∈ versions, ∃ word, version = .string word) :
    ∃ texts : List Text, versions = texts.map .string := by
  induction versions with
  | nil => exact ⟨[], rfl⟩
  | cons version rest ih =>
      obtain ⟨word, rfl⟩ := h version List.mem_cons_self
      obtain ⟨texts, rfl⟩ := ih fun other hOther => h other (List.mem_cons_of_mem _ hOther)
      exact ⟨word :: texts, rfl⟩

theorem doubtful_texts (asset : RetiredAsset) (texts : List Text) :
    asset.Doubtful (texts.map .string) ↔
      texts = [] ∨ [] ∈ texts ∨ (∃ first ∈ texts, ∃ second ∈ texts, first ≠ second) ∨ asset.version ∈ texts := by
  simp [Doubtful]

theorem qualified_iff (asset : RetiredAsset) (versions : List Value) :
    asset.qualified versions = true ↔ ¬ asset.Doubtful versions := by
  rw [qualified]
  cases hTexts : versions.mapM Value.asText with
  | none =>
      simp only [Bool.false_eq_true, false_iff, not_not]
      refine .inr (.inl ?_)
      by_contra hAll
      have hEach : ∀ version ∈ versions, ∃ word, version = .string word := by
        intro version hVersion
        by_contra hNot
        exact hAll ⟨version, hVersion, fun word hWord => absurd ⟨word, hWord⟩ hNot⟩
      obtain ⟨texts, hAgain⟩ := all_texts hEach
      rw [mapM_asText.mpr hAgain] at hTexts
      cases hTexts
  | some texts =>
      obtain rfl := mapM_asText.mp hTexts
      rw [doubtful_texts]
      simp only [Bool.and_eq_true, Bool.not_eq_true', List.isEmpty_eq_false_iff, List.all_eq_true, bne_iff_ne, ne_eq,
        beq_iff_eq, not_or, List.contains_eq_mem, decide_eq_false_iff_not]
      constructor
      · rintro ⟨⟨⟨hSome, hFull⟩, hSingle⟩, hOther⟩
        refine ⟨hSome, fun hEmpty => hFull [] hEmpty rfl, ?_, hOther⟩
        rintro ⟨first, hFirst, second, hSecond, hDiffer⟩
        exact hDiffer ((dedup_single hSome).mp hSingle first hFirst second hSecond)
      · rintro ⟨hSome, hFull, hSame, hOther⟩
        refine ⟨⟨⟨hSome, fun word hWord hEmpty => hFull (hEmpty ▸ hWord)⟩, (dedup_single hSome).mpr ?_⟩, hOther⟩
        intro first hFirst second hSecond
        by_contra hDiffer
        exact hSame ⟨first, hFirst, second, hSecond, hDiffer⟩

/-- The field is the version of an identity that names another prompt. -/
def QualifiedVersion (asset : RetiredAsset) (fields : List (Text × Value)) (field : Text × Value) : Prop :=
  ∃ group ∈ fieldGroups, (∃ other ∈ fields, group.identifies other = true) ∧
    ¬ asset.Doubtful (group.versionsOf fields) ∧ group.versionField field = true

/-- A part of a value: of its fields, apart from the ones outside, of its items,
or of the object or list that a text spells. -/
inductive Inside (outside : List (Text × Value) → Text × Value → Prop) (part : Value) : Value → Prop
  | refl : Inside outside part part
  | field {fields : List (Text × Value)} {field : Text × Value} (hField : field ∈ fields) (hInside : ¬ outside fields field)
      (hPart : Inside outside part field.2) : Inside outside part (.object fields)
  | item {items : List Value} {item : Value} (hItem : item ∈ items) (hPart : Inside outside part item) :
      Inside outside part (.array items)
  | text {value : Text} {inner : Value} (hLoads : loads overwrite none value = .ok inner) (hContainer : Container inner)
      (hPart : Inside outside part inner) : Inside outside part (.string value)

/-- A digest of the asset occurs in the text, one that is no part of the name of
the published suite. -/
def Digested (asset : RetiredAsset) (value : Text) : Prop :=
  ∃ token ∈ [asset.fingerprint, asset.packageSha256], token ≠ [] ∧ ¬ token <:+: publishedSuite ∧ token <:+: value

theorem named_of_digested {value : Text} (h : asset.Digested value) : asset.named value = true := by
  obtain ⟨token, hToken, hSome, -, hPart⟩ := h
  rw [named, List.any_eq_true]
  exact ⟨token, hToken, by simp [hSome, hPart]⟩

/-- What is found wherever it stands: an object or a list that refers to the
asset, and a text that holds a digest or spells such an object or list. -/
def Sure (asset : RetiredAsset) : Value → Prop
  | .string value => asset.Digested value ∨
      ∃ inner, loads overwrite none value = .ok inner ∧ Container inner ∧ asset.references inner = true
  | value => asset.references value = true

theorem references_of_sure {value : Value} (h : asset.Sure value) : asset.references value = true := by
  cases value with
  | string value =>
      rcases h with hDigested | ⟨inner, hLoads, hContainer, hRefers⟩
      · exact references_named (named_of_digested hDigested)
      · exact references_text hLoads hContainer hRefers
  | _ => exact h

theorem sure_of_container {value : Value} (hContainer : Container value) (h : asset.references value = true) :
    asset.Sure value := by
  cases value with
  | object fields => exact h
  | array items => exact h
  | _ => cases hContainer

/-! A field that is dropped is not sure. -/

theorem templateId_unread : (loads overwrite none (text templateId)).toOption.isNone = true := by decide

theorem publishedSuite_unread : (loads overwrite none publishedSuite).toOption.isNone = true := by decide

theorem templateId_infix_suite : text templateId <:+: publishedSuite := ⟨[], text "-v6-published", by decide⟩

theorem not_sure_of_isText {value : Value} {expected : Text} (hText : isText value expected = true)
    (hPart : expected <:+: publishedSuite) (hUnread : (loads overwrite none expected).toOption.isNone = true) :
    ¬ asset.Sure value := by
  cases value with
  | string value =>
      obtain rfl : value = expected := eq_of_beq hText
      rintro (⟨token, -, -, hApart, hToken⟩ | ⟨inner, hLoads, -, -⟩)
      · exact hApart (hToken.trans hPart)
      · rw [hLoads] at hUnread
        cases hUnread
  | _ => cases hText

theorem not_sure_of_knownSuite {field : Text × Value} (h : knownSuite field = true) : ¬ asset.Sure field.2 :=
  not_sure_of_isText (Bool.and_eq_true_iff.mp h).2 (List.infix_refl _) publishedSuite_unread

theorem not_sure_of_identifies {group : FieldGroup} {field : Text × Value} (h : group.identifies field = true) :
    ¬ asset.Sure field.2 :=
  not_sure_of_isText (Bool.and_eq_true_iff.mp h).2 templateId_infix_suite templateId_unread

/-! What is dropped of an object. -/

/-- A field is dropped as an identity or as a version, once the identity is qualified. -/
theorem strip_dropped {fields kept : List (Text × Value)} {group : FieldGroup} {field : Text × Value}
    (h : asset.strip fields group = some kept) (hField : field ∈ fields) (hDropped : field ∉ kept) :
    (∃ other ∈ fields, group.identifies other = true) ∧ ¬ asset.Doubtful (group.versionsOf fields) ∧
      (group.identifies field = true ∨ group.versionField field = true) := by
  unfold strip at h
  split at h
  · rename_i hAny
    split at h
    · rename_i hQualified
      obtain rfl := Option.some.inj h
      refine ⟨List.any_eq_true.mp hAny, (qualified_iff _ _).mp hQualified, ?_⟩
      by_contra hNeither
      rw [not_or, Bool.not_eq_true, Bool.not_eq_true] at hNeither
      exact hDropped (List.mem_filter.mpr ⟨hField, by simp [hNeither]⟩)
    · cases h
  · obtain rfl := Option.some.inj h
    exact absurd hField hDropped

/-- A group that names no version of the other keeps its versions. -/
theorem strip_versionsOf {fields kept : List (Text × Value)} {group other : FieldGroup}
    (h : asset.strip fields group = some kept)
    (hApart : ∀ field, other.versionField field = true → group.identifies field = false ∧ group.versionField field = false) :
    other.versionsOf kept = other.versionsOf fields := by
  unfold strip at h
  split at h
  · split at h
    · obtain rfl := Option.some.inj h
      rw [FieldGroup.versionsOf, FieldGroup.versionsOf, List.filter_filter]
      congr 1
      refine List.filter_congr fun field _ => ?_
      rw [Bool.and_eq_left_iff_imp]
      intro hVersion
      simp [hApart field hVersion]
    · cases h
  · obtain rfl := Option.some.inj h
    rfl

theorem keys_apart {first second : List String}
    (hApart : (first.all fun key => second.all fun other => text key != text other) = true) {name : Text}
    (h : (first.any fun key => name == text key) = true) : (second.any fun key => name == text key) = false := by
  obtain ⟨key, hKey, hName⟩ := List.any_eq_true.mp h
  obtain rfl := eq_of_beq hName
  rw [List.any_eq_false]
  intro other hOther hSame
  have hDiffer := List.all_eq_true.mp (List.all_eq_true.mp hApart key hKey) other hOther
  rw [eq_of_beq hSame, bne_self_eq_false] at hDiffer
  cases hDiffer

/-- Known identities of the suite are no versions. -/
theorem versionsOf_unknown {group : FieldGroup} (hGroup : group ∈ fieldGroups) (fields : List (Text × Value)) :
    group.versionsOf (fields.filter fun field => !knownSuite field) = group.versionsOf fields := by
  have hApart : (group.versions.all fun key => ["suite_id", "id", "identity"].all fun other => text key != text other) =
      true := by
    revert group
    decide
  rw [FieldGroup.versionsOf, FieldGroup.versionsOf, List.filter_filter]
  congr 1
  refine List.filter_congr fun field _ => ?_
  rw [Bool.and_eq_left_iff_imp]
  intro hVersion
  simp [knownSuite, keys_apart hApart hVersion]

theorem templateFields_apart {field : Text × Value} (h : identityFields.versionField field = true) :
    templateFields.identifies field = false ∧ templateFields.versionField field = false :=
  ⟨Bool.and_eq_false_iff.mpr (.inl (keys_apart (by decide) h)), keys_apart (by decide) h⟩

theorem searched_steps {fields kept : List (Text × Value)} :
    asset.searched fields = some kept ↔ ∃ first,
      asset.strip (fields.filter fun field => !knownSuite field) templateFields = some first ∧
        asset.strip first identityFields = some kept := by
  simp only [searched, fieldGroups, List.foldlM_cons, List.foldlM_nil, Option.bind_eq_bind, Option.bind_eq_some_iff,
    Option.pure_def, Option.some.injEq, exists_eq_right]

/-- A sure field that does not qualify an identity is searched. -/
theorem searched_sure {fields kept : List (Text × Value)} {field : Text × Value} (h : asset.searched fields = some kept)
    (hField : field ∈ fields) (hInside : ¬ asset.QualifiedVersion fields field) (hSure : asset.Sure field.2) :
    field ∈ kept := by
  obtain ⟨first, hFirst, hKept⟩ := searched_steps.mp h
  have hUnknown : field ∈ fields.filter fun field => !knownSuite field := by
    rw [List.mem_filter, Bool.not_eq_true']
    exact ⟨hField, Bool.eq_false_iff.mpr fun hKnown => not_sure_of_knownSuite hKnown hSure⟩
  have hStays : field ∈ first := by
    by_contra hDropped
    obtain ⟨⟨other, hOther, hIdentifies⟩, hDoubtful, hEither⟩ := strip_dropped hFirst hUnknown hDropped
    rw [versionsOf_unknown (List.mem_cons_self)] at hDoubtful
    rcases hEither with hIdentity | hVersion
    · exact not_sure_of_identifies hIdentity hSure
    · exact hInside ⟨templateFields, List.mem_cons_self, ⟨other, (List.mem_filter.mp hOther).1, hIdentifies⟩, hDoubtful,
        hVersion⟩
  by_contra hDropped
  obtain ⟨⟨other, hOther, hIdentifies⟩, hDoubtful, hEither⟩ := strip_dropped hKept hStays hDropped
  rw [strip_versionsOf hFirst fun _ => templateFields_apart,
    versionsOf_unknown (List.mem_cons_of_mem _ List.mem_cons_self)] at hDoubtful
  rcases hEither with hIdentity | hVersion
  · exact not_sure_of_identifies hIdentity hSure
  · exact hInside ⟨identityFields, List.mem_cons_of_mem _ List.mem_cons_self,
      ⟨other, (List.mem_filter.mp (strip_subset hFirst hOther)).1, hIdentifies⟩, hDoubtful, hVersion⟩

/-! An identity that is not qualified. -/

theorem strip_doubtful {fields : List (Text × Value)} {group : FieldGroup} {field : Text × Value} (hField : field ∈ fields)
    (hIdentity : group.identifies field = true) (hDoubtful : asset.Doubtful (group.versionsOf fields)) :
    asset.strip fields group = none := by
  rw [strip, if_pos (List.any_eq_true.mpr ⟨field, hField, hIdentity⟩), if_neg]
  rw [qualified_iff]
  exact not_not.mpr hDoubtful

theorem identity_unknown {group : FieldGroup} {field : Text × Value} (h : group.identifies field = true) :
    knownSuite field = false := by
  rw [knownSuite, Bool.and_eq_false_iff]
  right
  have hText := (Bool.and_eq_true_iff.mp h).2
  cases hValue : field.2 with
  | string value =>
      rw [hValue] at hText
      obtain rfl : value = text templateId := eq_of_beq hText
      decide
  | _ => rfl

theorem searched_doubtful {fields : List (Text × Value)} {group : FieldGroup} {field : Text × Value}
    (hGroup : group ∈ fieldGroups) (hField : field ∈ fields) (hIdentity : group.identifies field = true)
    (hDoubtful : asset.Doubtful (group.versionsOf fields)) : asset.searched fields = none := by
  have hUnknown : field ∈ fields.filter fun field => !knownSuite field :=
    List.mem_filter.mpr ⟨hField, by rw [identity_unknown hIdentity, Bool.not_false]⟩
  rw [Option.eq_none_iff_forall_ne_some]
  intro kept hKept
  obtain ⟨first, hFirst, hKept⟩ := searched_steps.mp hKept
  rw [fieldGroups, List.mem_cons, List.mem_singleton] at hGroup
  rcases hGroup with rfl | rfl
  · rw [strip_doubtful hUnknown hIdentity (by rwa [versionsOf_unknown List.mem_cons_self])] at hFirst
    cases hFirst
  · have hStays : field ∈ first := by
      by_contra hDropped
      have hKeys := (Bool.and_eq_true_iff.mp hIdentity).1
      rcases (strip_dropped hFirst hUnknown hDropped).2.2 with hOther | hOther
      · have hNot := @keys_apart _ templateFields.identities (by decide) _ hKeys
        rw [(Bool.and_eq_true_iff.mp hOther).1] at hNot
        cases hNot
      · have hNot : templateFields.versionField field = false := keys_apart (by decide) hKeys
        rw [hOther] at hNot
        cases hNot
    have hVersions : identityFields.versionsOf first = identityFields.versionsOf fields := by
      rw [strip_versionsOf hFirst fun _ => templateFields_apart,
        versionsOf_unknown (List.mem_cons_of_mem _ List.mem_cons_self)]
    rw [strip_doubtful hStays hIdentity (hVersions ▸ hDoubtful)] at hKept
    cases hKept

theorem references_doubtful {fields : List (Text × Value)} {group : FieldGroup} {field : Text × Value}
    (hGroup : group ∈ fieldGroups) (hField : field ∈ fields) (hIdentity : group.identifies field = true)
    (hDoubtful : asset.Doubtful (group.versionsOf fields)) : asset.references (.object fields) = true := by
  rw [references_object, searched_doubtful hGroup hField hIdentity hDoubtful]
  rintro kept ⟨⟩

/-! Wherever it stands. -/

/-- A sure part makes the whole sure: by induction over where it stands. -/
theorem sure_of_inside {part value : Value} (h : Inside asset.QualifiedVersion part value) (hSure : asset.Sure part) :
    asset.Sure value := by
  induction h with
  | refl => exact hSure
  | field hField hInside hPart ih =>
      have hKeeps : asset.references (.object _) = true := (references_object asset _).mpr fun kept hKept =>
        ⟨_, searched_sure hKept hField hInside ih, references_of_sure ih⟩
      exact hKeeps
  | item hItem hPart ih =>
      have hKeeps : asset.references (.array _) = true := (references_array asset _).mpr ⟨_, hItem, references_of_sure ih⟩
      exact hKeeps
  | text hLoads hContainer hPart ih => exact .inr ⟨_, hLoads, hContainer, references_of_sure ih⟩

/-- No reference is missed, apart from what the version of a qualified identity
spells: a text with a digest, an identity that is not qualified, and an object or
a list that refers to the asset keep it wherever they stand. -/
theorem references_complete (asset : RetiredAsset) (value : Value) :
    (∀ word, Inside asset.QualifiedVersion (.string word) value → asset.Digested word → asset.references value = true) ∧
    (∀ fields, Inside asset.QualifiedVersion (.object fields) value →
      ∀ group ∈ fieldGroups, ∀ field ∈ fields, group.identifies field = true → asset.Doubtful (group.versionsOf fields) →
        asset.references value = true) ∧
    ∀ part, Inside asset.QualifiedVersion part value → Container part → asset.references part = true →
      asset.references value = true := by
  refine ⟨fun word hInside hDigested => ?_, fun fields hInside group hGroup field hField hIdentity hDoubtful => ?_,
    fun part hInside hContainer hRefers => ?_⟩
  · exact references_of_sure (sure_of_inside hInside (.inl hDigested))
  · exact references_of_sure (sure_of_inside hInside (references_doubtful hGroup hField hIdentity hDoubtful))
  · exact references_of_sure (sure_of_inside hInside (sure_of_container hContainer hRefers))

/-- The first version, under a digest of letters. -/
def firstAsset : RetiredAsset where
  version := text "v1"
  fingerprint := List.replicate 64 97
  packageSha256 := List.replicate 64 98
  known := by decide

/-- An object that names the prompts without a version. -/
def unversioned : Value := .object [(text "id", .string (text templateId))]

/-- The version of another identity spells the object. -/
def spelled : Value :=
  .object [(text "id", .string (text templateId)), (text "version", .string (valueText compact unversioned))]

theorem unversioned_loads : loads overwrite none (valueText compact unversioned) = .ok unversioned := by
  have hWell : unversioned.WellFormed := by simp [unversioned, Value.WellFormed, FieldsWellFormed]
  have hCheck : checkWritten false none unversioned = .ok () := rfl
  exact loads_valueText keeps_overwrite hWell hCheck

/-- An object is missed in the version that spells it, and a digest in the name of
the published suite. -/
theorem references_missed :
    (Inside (fun _ _ => False) unversioned spelled ∧ Container unversioned ∧ firstAsset.references unversioned = true ∧
      firstAsset.references spelled = false) ∧
    { firstAsset with fingerprint := text "published" }.named publishedSuite = true ∧
      { firstAsset with fingerprint := text "published" }.references
        (.object [(text "suite_id", .string publishedSuite)]) = false := by
  refine ⟨⟨.field (List.mem_cons_of_mem _ List.mem_cons_self) not_false (.text unversioned_loads trivial .refl), trivial,
    ?_, ?_⟩, ?_, ?_⟩
  · decide
  · decide
  · decide
  · decide

/-- The object is found in a text of a list. -/
theorem references_complete_text :
    firstAsset.references (.array [.string (valueText compact unversioned)]) = true := by
  refine (references_complete firstAsset _).2.1 [(text "id", .string (text templateId))]
    (.item List.mem_cons_self (.text unversioned_loads trivial .refl)) identityFields
    (List.mem_cons_of_mem _ List.mem_cons_self) _ List.mem_cons_self ?_ (.inl ?_)
  · decide
  · rfl

end RetiredAsset

end PromptRetirement

end QsAi

import QsAi.Foundation.JsonForm
import QsAi.Foundation.Template
import QsAi.Interpretation.Output

/-! Rendering of a prompt: the trusted policy goes into the task, the facts of the
assessment stay in a JSON text of their own. -/
namespace QsAi

open Guarded PyJson ReportInput

namespace Prompts

def mbtiContract : Text := text "mbti-single-assessment/v1"

def mbtiThematicContract : Text := text "mbti-single-assessment/v2"

structure PromptPackage where
  templateId : Text
  version : Text
  systemMessage : Text
  taskTemplate : Text
  dataPreamble : Text
  allowedPlaceholders : List Text

/-- The policy with the fields that only the prompt reads. -/
structure RenderPolicy extends QsAi.RenderPolicy where
  templateId : Text
  version : Text
  allowedFocusAreas : List Text

structure PromptMessages where
  systemMessage : Text
  taskMessage : Text
  dataPreamble : Text
  dataJson : Text
deriving DecidableEq

/-- A prompt that is refused, with the message of `InvalidPrompt`. -/
abbrev Rendering := Except (Failure String)

/-- Small letters, digits and the underscore. -/
def isPlaceholderCode (c : Nat) : Bool := isSmall c || isDigit c || c == 95

def isPlaceholder (value : Text) : Bool :=
  let name := (value.drop 2).take (value.length - 4)
  decide (Template.IsName isPlaceholderCode name) && value == Template.spell name

/-- A letter or digit, then at most 254 letters, digits and marks. -/
def isCode (value : Text) : Bool :=
  match value with
  | [] => false
  | first :: rest =>
      (isLetter first || isDigit first) && rest.length ≤ 254 &&
        rest.all fun c => isLetter c || isDigit c || c == 95 || c == 46 || c == 45

variable (limits : ReportOutput.Limits)

/-- `_json`. -/
def json (value : Value) : Except Fault Text := dumps compact false (some limits.writeDepth) value

def textItems (values : List Text) : Value := .array (values.map .string)

def RenderPolicy.codes (policy : RenderPolicy) : List (List Text) :=
  [policy.allowedFocusAreas, policy.allowedInsightKinds, policy.allowedSuggestionOrigins,
    policy.allowedSuggestionCategories]

/-- The lower and the upper value of each bound, between a floor and a ceiling. -/
def RenderPolicy.ranges (policy : RenderPolicy) : List (Int × Int × Int × Int) :=
  [(policy.insightMinItems, policy.insightMaxItems, 1, 8), (policy.minDimensionRefs, policy.maxDimensionRefs, 2, 6),
    (policy.suggestionMinItems, policy.suggestionMaxItems, 1, 8), (policy.maxActionsPerItem, policy.maxActionsPerItem, 1, 5),
    (policy.maxOutputCharacters, policy.maxOutputCharacters, 512, 20000)]

def checkPackage (package : PromptPackage) (policy : RenderPolicy) : Rendering Unit := do
  require (package.templateId = policy.templateId ∧ package.version = policy.version)
    (.refused "Prompt and Profile identity mismatch")
  require (∀ message ∈ [package.systemMessage, package.taskTemplate, package.dataPreamble], stripText message ≠ [])
    (.refused "Prompt messages are required")
  require (¬ text "\x7b\x7b" <:+: package.systemMessage ∧ ¬ text "\x7b\x7b" <:+: package.dataPreamble)
    (.refused "Dynamic system or data preamble is forbidden")
  require (package.allowedPlaceholders.Nodup ∧ ∀ value ∈ package.allowedPlaceholders, isPlaceholder value = true)
    (.refused "Invalid or duplicated placeholder")

/-- The fields that the scene contract expects. -/
def expectedFields (scene : Option Text) : List Text :=
  if scene = some mbtiThematicContract then [text "context", text "facts", text "reference_material"]
  else [text "context", text "facts"]

def loadPayload (providerPayload : Text) : Rendering Value :=
  match loads distinct (some limits.readDepth) providerPayload with
  | .ok data => pure data
  | .error .malformed => refuse "Invalid provider payload"
  | .error .tooDeep => native (.error .recursion)

/-- The payload is an object with exactly the fields of its contract. -/
def checkFields (scene : Option Text) (data : Value) : Rendering Unit :=
  match data with
  | .object fields =>
      require ((∀ field ∈ fields, field.1 ∈ expectedFields scene) ∧
          ∀ key ∈ expectedFields scene, ∃ field ∈ fields, field.1 = key)
        (.refused "Provider payload differs from scene contract")
  | _ => refuse "Provider payload differs from scene contract"

def isObject : Value → Bool
  | .object _ => true
  | _ => false

def checkReferenceMaterial (scene : Option Text) (data : Value) : Rendering Unit :=
  if scene = some mbtiThematicContract then do
    let material ← native (data.item "reference_material")
    require (isObject material = true) (.refused "Reference material must be a frozen object")
  else pure ()

def readLocale (locale : Option Value) : Rendering Text :=
  match locale with
  | some (.string locale) => do
      require (locale.length ≤ 35 ∧ isLocale locale = true) (.refused "Invalid locale")
      pure locale
  | _ => refuse "Invalid locale"

def readFocus (policy : RenderPolicy) (focus : Option Value) : Rendering (List Text) :=
  match focus with
  | some (.array items) => do
      let focus ← demand (items.mapM Value.asText) (.refused "Invalid focus areas")
      require (focus.Nodup ∧ ∀ area ∈ focus, area ∈ policy.allowedFocusAreas)
        (.refused "Focus areas must be unique and allowed by Profile")
      pure focus
  | _ => refuse "Invalid focus areas"

/-- The locale and the focus areas that a payload asks for. -/
def readContext (scene : Option Text) (policy : RenderPolicy) (data : Value) : Rendering (Text × List Text) := do
  checkReferenceMaterial scene data
  let context ← native (data.item "context")
  let facts ← native (data.item "facts")
  require (isObject context = true ∧ isObject facts = true) (.refused "Context and facts must be objects")
  let locale ← native (context.get "locale")
  let focus ← native (context.get "focus_areas")
  let locale ← readLocale locale
  let focus ← readFocus policy focus
  pure (locale, focus)

def checkPolicy (policy : RenderPolicy) : Rendering Unit := do
  require (∀ codes ∈ policy.codes, codes.Nodup ∧ ∀ code ∈ codes, isCode code = true) (.refused "Invalid controlled policy codes")
  require (∀ codes ∈ policy.codes.tail, codes ≠ []) (.refused "Policy kinds, origins and categories are required")
  require (∀ range ∈ policy.ranges, range.2.2.1 ≤ range.1 ∧ range.1 ≤ range.2.1 ∧ range.2.1 ≤ range.2.2.2)
    (.refused "Invalid policy bounds")

/-- The value of each placeholder: locale and focus areas, and the policy. -/
def placeholderValues (policy : RenderPolicy) (locale : Text) (focus : List Text) : Except Fault (List (Text × Text)) := do
  let focus ← json limits (textItems focus)
  let kinds ← json limits (textItems policy.allowedInsightKinds)
  let hierarchy ← json limits (.bool policy.allowParentChildInSameInsight)
  let origins ← json limits (textItems policy.allowedSuggestionOrigins)
  let categories ← json limits (textItems policy.allowedSuggestionCategories)
  pure
    [(text "locale", locale), (text "focus_areas_json", focus), (text "allowed_insight_kinds_json", kinds),
      (text "insight_min_items", intText policy.insightMinItems), (text "insight_max_items", intText policy.insightMaxItems),
      (text "min_dimension_refs", intText policy.minDimensionRefs), (text "max_dimension_refs", intText policy.maxDimensionRefs),
      (text "allow_parent_child_in_same_insight", hierarchy), (text "allowed_suggestion_origins_json", origins),
      (text "allowed_suggestion_categories_json", categories),
      (text "suggestion_min_items", intText policy.suggestionMinItems),
      (text "suggestion_max_items", intText policy.suggestionMaxItems),
      (text "max_actions_per_item", intText policy.maxActionsPerItem),
      (text "max_output_characters", intText policy.maxOutputCharacters)]

/-- The task: every placeholder is allowed and has a value, and nothing looks like
another one afterwards. -/
def renderTask (package : PromptPackage) (values : List (Text × Text)) : Rendering Text := do
  require (∀ name ∈ Template.names isPlaceholderCode package.taskTemplate,
      Template.spell name ∈ package.allowedPlaceholders ∧ (values.lookup name).isSome = true)
    (.refused "Unknown or forbidden placeholder")
  let task ← native (demand (Template.substitute isPlaceholderCode (fun name => values.lookup name) package.taskTemplate) .key)
  require (¬ text "\x7b\x7b" <:+: task ∧ ¬ text "\x7d\x7d" <:+: task) (.refused "Unresolved placeholder")
  pure task

/-- `render_prompt`. -/
def renderPrompt (package : PromptPackage) (policy : RenderPolicy) (providerPayload : Text) (scene : Option Text) :
    Rendering PromptMessages := do
  require (scene = none ∨ scene = some mbtiContract ∨ scene = some mbtiThematicContract)
    (.refused "Unsupported scene contract")
  checkPackage package policy
  let data ← loadPayload limits providerPayload
  checkFields scene data
  let (locale, focus) ← readContext scene policy data
  checkPolicy policy
  let values ← native (placeholderValues limits policy locale focus)
  let task ← renderTask package values
  let dataJson ← native (json limits data)
  pure
    { systemMessage := package.systemMessage
      taskMessage := task
      dataPreamble := package.dataPreamble
      dataJson }

/-- The locale and the focus areas that a payload names. -/
def asked (providerPayload : Text) : Option (Option Value × Option Value) := do
  let data ← (loads distinct (some limits.readDepth) providerPayload).toOption
  let context ← (data.item "context").toOption
  let locale ← (context.get "locale").toOption
  let focus ← (context.get "focus_areas").toOption
  some (locale, focus)

variable {limits : ReportOutput.Limits} {package : PromptPackage} {policy : RenderPolicy} {scene : Option Text}

theorem loadPayload_ok {providerPayload : Text} {data : Value} (h : loadPayload limits providerPayload = .ok data) :
    loads distinct (some limits.readDepth) providerPayload = .ok data := by
  unfold loadPayload at h
  split at h
  · rename_i hRead
    rw [pure_ok] at h
    rw [hRead, h]
  · rw [refuse_ok] at h
    cases h
  · rw [native_ok] at h
    cases h

theorem readLocale_ok {found : Option Value} {locale : Text} (h : readLocale found = .ok locale) :
    found = some (.string locale) := by
  unfold readLocale at h
  split at h
  · rw [require_bind_ok, pure_ok] at h
    rw [h.2]
  · rw [refuse_ok] at h
    cases h

theorem readFocus_ok {found : Option Value} {focus : List Text} (h : readFocus policy found = .ok focus) :
    found = some (textItems focus) := by
  unfold readFocus at h
  split at h
  · simp only [bind_ok, demand_ok, mapM_asText, require_ok, pure_ok] at h
    obtain ⟨areas, rfl, _, _, rfl⟩ := h
    rfl
  · rw [refuse_ok] at h
    cases h

theorem readContext_ok {data : Value} {locale : Text} {focus : List Text}
    (h : readContext scene policy data = .ok (locale, focus)) :
    ∃ context, data.item "context" = .ok context ∧ context.get "locale" = .ok (some (.string locale)) ∧
      context.get "focus_areas" = .ok (some (textItems focus)) := by
  simp only [readContext, bind_ok, native_ok, pure_ok, Prod.mk.injEq] at h
  obtain ⟨_, _, context, hContext, _, _, _, _, found, hFound, areas, hAreas, _, hLocale, _, hFocus, rfl, rfl⟩ := h
  rw [readLocale_ok hLocale] at hFound
  rw [readFocus_ok hFocus] at hAreas
  exact ⟨context, hContext, hFound, hAreas⟩

/-- What an accepted prompt consists of. -/
structure Renders (limits : ReportOutput.Limits) (package : PromptPackage) (policy : RenderPolicy) (providerPayload : Text)
    (messages : PromptMessages) (data : Value) (locale : Text) (focus : List Text) (values : List (Text × Text)) : Prop where
  payload : loads distinct (some limits.readDepth) providerPayload = .ok data
  asked : asked limits providerPayload = some (some (.string locale), some (textItems focus))
  computed : placeholderValues limits policy locale focus = .ok values
  task : renderTask package values = .ok messages.taskMessage
  written : Prompts.json limits data = .ok messages.dataJson
  system : messages.systemMessage = package.systemMessage
  preamble : messages.dataPreamble = package.dataPreamble

theorem renderPrompt_ok {providerPayload : Text} {messages : PromptMessages}
    (h : renderPrompt limits package policy providerPayload scene = .ok messages) :
    ∃ data locale focus values, Renders limits package policy providerPayload messages data locale focus values := by
  simp only [renderPrompt, bind_ok, require_ok, exists_const, native_ok, pure_ok, Prod.exists] at h
  obtain ⟨_, _, _, data, hData, _, _, locale, focus, hContext, _, _, values, hValues, task, hTask, dataJson, hJson, rfl⟩ := h
  have hLoads := loadPayload_ok hData
  obtain ⟨context, hItem, hLocale, hFocus⟩ := readContext_ok hContext
  refine ⟨data, locale, focus, values, hLoads, ?_, hValues, hTask, hJson, rfl, rfl⟩
  simp [asked, hLoads, hItem, hLocale, hFocus, Except.toOption]

/-- The value of a placeholder that the package allows. -/
def allowedValue (package : PromptPackage) (values : List (Text × Text)) (name : Text) : Option Text :=
  if Template.spell name ∈ package.allowedPlaceholders then values.lookup name else none

/-- The task is the template with every placeholder replaced, and no brace is doubled. -/
theorem renderTask_ok {values : List (Text × Text)} {task : Text} (h : renderTask package values = .ok task) :
    Template.Rendered isPlaceholderCode (allowedValue package values) package.taskTemplate task ∧
      ¬ text "\x7b\x7b" <:+: task ∧ ¬ text "\x7d\x7d" <:+: task := by
  simp only [renderTask, bind_ok, require_ok, exists_const, native_ok, demand_ok, pure_ok] at h
  obtain ⟨hNames, found, hFound, hBraces, rfl⟩ := h
  refine ⟨(Template.substitute_iff (by decide) _ _ _).mp ?_, hBraces⟩
  rw [← hFound]
  refine Template.fillAll_congr fun name hName => ?_
  rw [allowedValue, if_pos (hNames name (Template.mem_names.mpr hName)).1]

theorem Renders.unique_task {providerPayload other : Text} {messages others : PromptMessages} {data data' : Value}
    {locale locale' : Text} {focus focus' : List Text} {values values' : List (Text × Text)}
    (h : Renders limits package policy providerPayload messages data locale focus values)
    (hOther : Renders limits package policy other others data' locale' focus' values')
    (hAsked : Prompts.asked limits providerPayload = Prompts.asked limits other) :
    messages.taskMessage = others.taskMessage := by
  have hSame := h.asked.symm.trans (hAsked.trans hOther.asked)
  simp only [Option.some.injEq, Prod.mk.injEq, Value.string.injEq, textItems, Value.array.injEq] at hSame
  obtain ⟨rfl, hFocus⟩ := hSame
  obtain rfl : focus = focus' := List.map_injective_iff.mpr (fun _ _ => Value.string.inj) hFocus
  obtain rfl := Except.ok.inj (h.computed.symm.trans hOther.computed)
  exact Except.ok.inj (h.task.symm.trans hOther.task)

/-- The data decode to the value of the payload, whatever reader returns. -/
theorem Renders.decodes {providerPayload : Text} {messages : PromptMessages} {data : Value} {locale : Text} {focus : List Text}
    {values : List (Text × Text)} (h : Renders limits package policy providerPayload messages data locale focus values) :
    loads overwrite none messages.dataJson = .ok data ∧
      ∀ depth found, loads overwrite depth messages.dataJson = .ok found → found = data := by
  have hWell := loads_distinct_wellFormed h.payload
  obtain ⟨hCheck, hText⟩ := dumps_ok.mp h.written
  rw [hText]
  exact ⟨loads_valueText keeps_overwrite hWell hCheck, fun depth found hFound => loads_of_dumps hWell h.written (hText ▸ hFound)⟩

/-- Two payloads with one locale and one list of focus areas give one prompt; a task
is its template with the placeholders replaced by values of the policy, and the data
are the payload's own. -/
theorem facts_stay_out (limits : ReportOutput.Limits) (package : PromptPackage) (policy : RenderPolicy) :
    (∀ first second scene scene' messages messages',
      renderPrompt limits package policy first scene = .ok messages →
      renderPrompt limits package policy second scene' = .ok messages' →
      asked limits first = asked limits second →
        messages.systemMessage = messages'.systemMessage ∧ messages.taskMessage = messages'.taskMessage ∧
          messages.dataPreamble = messages'.dataPreamble) ∧
    ∀ providerPayload scene messages, renderPrompt limits package policy providerPayload scene = .ok messages →
      (¬ text "\x7b\x7b" <:+: messages.taskMessage ∧ ¬ text "\x7d\x7d" <:+: messages.taskMessage) ∧
      (∃ locale focus values, asked limits providerPayload = some (some (.string locale), some (textItems focus)) ∧
        placeholderValues limits policy locale focus = .ok values ∧
        ∀ output, Template.Rendered isPlaceholderCode (allowedValue package values) package.taskTemplate output ↔
          output = messages.taskMessage) ∧
      ∃ data, loads distinct (some limits.readDepth) providerPayload = .ok data ∧
        loads overwrite none messages.dataJson = .ok data ∧
        ∀ depth found, loads overwrite depth messages.dataJson = .ok found → found = data := by
  refine ⟨fun first second scene scene' messages messages' hFirst hSecond hAsked => ?_,
    fun providerPayload scene messages h => ?_⟩
  · obtain ⟨_, _, _, _, h⟩ := renderPrompt_ok hFirst
    obtain ⟨_, _, _, _, hOther⟩ := renderPrompt_ok hSecond
    exact ⟨h.system.trans hOther.system.symm, h.unique_task hOther hAsked, h.preamble.trans hOther.preamble.symm⟩
  · obtain ⟨data, locale, focus, values, hParts⟩ := renderPrompt_ok h
    obtain ⟨hRendered, hBraces⟩ := renderTask_ok hParts.task
    refine ⟨hBraces, ⟨locale, focus, values, hParts.asked, hParts.computed, fun output => ?_⟩, data, hParts.payload,
      hParts.decodes⟩
    constructor
    · exact fun hOutput => hOutput.unique (by decide) hRendered
    · rintro rfl
      exact hRendered

def samplePackage : PromptPackage where
  templateId := text "t"
  version := text "v"
  systemMessage := text "s"
  taskTemplate := text "\x7b\x7b\x7blocale\x7d\x7d\x7d"
  dataPreamble := text "d"
  allowedPlaceholders := [text "\x7b\x7blocale\x7d\x7d"]

def samplePolicy : RenderPolicy where
  allowedInsightKinds := [text "k"]
  insightMinItems := 1
  insightMaxItems := 2
  minDimensionRefs := 2
  maxDimensionRefs := 3
  allowParentChildInSameInsight := true
  allowedSuggestionOrigins := [text "o"]
  allowedSuggestionCategories := [text "c"]
  suggestionMinItems := 1
  suggestionMaxItems := 2
  maxActionsPerItem := 1
  maxOutputCharacters := 512
  templateId := text "t"
  version := text "v"
  allowedFocusAreas := []

/-- Braces around a placeholder stay. -/
example : (renderPrompt ⟨9, 9⟩ samplePackage samplePolicy
    (text "\x7b\"context\":\x7b\"locale\":\"zh\",\"focus_areas\":[]\x7d,\"facts\":\x7b\x7d\x7d") none).toOption.map
      (·.taskMessage) = some (text "\x7bzh\x7d") := by
  decide +kernel

end Prompts

end QsAi

import QsAi.Interpretation.Output

/-! The safety check of an output before it is published: no forbidden phrase
anywhere, and limitations that say what the text is not. -/
namespace QsAi

open Guarded PyJson

namespace OutputSafety

/-- The first character of `str.lower`. ASCII letters get small and nothing else
becomes an ASCII character other than a small letter. -/
structure Lowering where
  lower : Nat → Nat
  ascii : ∀ c < 128, lower c = if 65 ≤ c ∧ c ≤ 90 then c + 32 else c
  beyond : ∀ c, 128 ≤ c → lower c < 128 → 97 ≤ lower c ∧ lower c ≤ 122
  ideograph : ∀ c, 0x4E00 ≤ c → c ≤ 0x9FFF → lower c = c

def rules : List (String × List String) :=
  [("diagnosis", ["诊断为", "确诊", "证明患有", "diagnosed with", "you have a disorder"]),
    ("causality", ["由此导致", "这导致了", "is caused by", "this causes"]),
    ("medication", ["建议服用", "应当服药", "开始用药", "take medication", "start medication"]),
    ("treatment_plan", ["治疗方案是", "需要接受心理治疗", "treatment plan is", "must undergo therapy"]),
    ("risk_reclassification", ["重新分类为高风险", "属于危机状态", "reclassified as high risk", "in a crisis state"]),
    ("identity_inference", ["说明你就是", "你本质上是", "这证明你是", "this means you are", "you are inherently"]),
    ("deterministic_future_prediction", ["你一定会", "未来必然", "肯定会发生", "you will definitely", "will inevitably"])]

def negations : List String :=
  ["不构成", "不能作为", "不可作为", "不属于", "不代表", "不等同于", "无法作为", "not a", "not an", "not diagnostic",
    "cannot be used as", "does not constitute"]

def markers : List String := ["但是", "但", "然而", "不过", "but", "however"]

/-- Blanks that are dropped; the separators among the control characters stay. -/
def isDropped (c : Nat) : Bool := isSpaceCode c && !(28 ≤ c && c ≤ 31)

variable (library : Lowering)

/-- `_normalize`. -/
def normalize (value : Text) : Text := (value.filter fun c => !isDropped c).map library.lower

/-- `_contains`. -/
def contains (value : Text) (concepts : List String) : Bool :=
  concepts.any fun concept => decide (normalize library (text concept) <:+: value)

/-- What follows each occurrence of a token, one after the other. -/
def afterEach (token : Text) : Nat → Text → List Text
  | _, [] => []
  | 0, c :: rest =>
      if token.isPrefixOf (c :: rest) then (c :: rest).drop token.length :: afterEach token (token.length - 1) rest
      else afterEach token 0 rest
  | skip + 1, _ :: rest => afterEach token skip rest

/-- The text before the first of the markers. -/
def beforeMarker : Text → Text
  | [] => []
  | c :: rest => if markers.any fun marker => (text marker).isPrefixOf (c :: rest) then [] else c :: beforeMarker rest

/-- `_negated`: a concept shortly after a negation, or inside one. -/
def negated (value : Text) (concepts : List String) : Bool :=
  negations.any fun negation =>
    let token := normalize library (text negation)
    (decide (token <:+: value) && contains library token concepts) ||
      (afterEach token 0 value).any fun tail => contains library (beforeMarker (tail.take 64)) concepts

/-- `" ".join(content["limitations"])`. -/
def joinedLimitations (content : Value) : Except Fault Text := do
  let limitations ← content.item "limitations"
  let items ← limitations.elements
  let words ← items.mapM fun item =>
    match item with
    | .string found => (.ok found : Except Fault Text)
    | _ => .error .type
  pure ([32].intercalate words)

def limitationsComplete (limitations : Text) : Bool :=
  contains library limitations ["本次测评", "本次结果", "current assessment", "this assessment"] &&
    negated library limitations ["诊断", "diagnosis", "diagnostic"] &&
    negated library limitations ["确定性判断", "确定判断", "确定性结论", "确定结论", "确定性预测", "确定预测",
      "definitive conclusion", "deterministic judgment", "definitive prediction"]

/-- The first rule that a text breaks. -/
def brokenRule (narrative : Text) : Option (String × List String) := rules.find? fun rule => contains library narrative rule.2

/-- The verdict on the content of an output that can be written. -/
def verdict (content : Value) : OutputCheck Unit :=
  match brokenRule library (normalize library (valueText compact content)) with
  | some rule => invalidOutput ("forbidden_" ++ rule.1)
  | none => do
      let limitations ← native (joinedLimitations content)
      if limitationsComplete library (normalize library limitations) then pure ()
      else invalidOutput "limitations_incomplete"

structure SafetyCheckedOutput where
  contentJson : Text
  deterministicValidatorVersion : String
  safetyValidatorVersion : String

/-- `check_safety`. -/
def checkSafety (limits : ReportOutput.Limits) (output : ReportOutput.DeterministicOutput) : OutputCheck SafetyCheckedOutput := do
  let content ← native ((loads overwrite (some limits.readDepth) output.contentJson).mapError ReportOutput.faultOf)
  native (checkWritten true (some limits.writeDepth) content)
  verdict library content
  pure ⟨output.contentJson, output.validatorVersion, "ai-explanation-safety-deterministic-zh-en/v2"⟩

end OutputSafety

end QsAi

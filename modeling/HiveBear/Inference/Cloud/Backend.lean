/-
# Requests to providers

The name of a model in the cloud begins with its provider. The backend looks the provider up in a
table, finds the key that it has for it, and sends a request that the protocol of the provider
makes up.

Keys come from the configuration, from two fields that older versions wrote, and from the
environment, in this order. A provider sees no key but its own, and one that asks for none sees
none.
-/

import HiveBear.Inference.Cloud.Streams
import HiveBear.Library.Entries

namespace HiveBear.Inference.Cloud

open JsonText Texts Utf8

/-! ## Providers -/

/-- How a provider is shown a key. -/
inductive AuthStyle
  | bearerToken
  | customHeader (name : String)
  | apiKeyInUrl
  | none
  deriving DecidableEq

structure ProviderDef where
  providerPrefix : String
  displayName : String
  baseUrl : String
  protocol : CloudProtocol
  authStyle : AuthStyle
  envVar : String
  extraHeaders : List (String × String)
  chatEndpoint : String
  requiresApiKey : Bool

/-- A provider with the protocol that most of them share. -/
def ProviderDef.bearer (providerPrefix displayName baseUrl envVar : String) : ProviderDef where
  providerPrefix := providerPrefix
  displayName := displayName
  baseUrl := baseUrl
  protocol := .openAiCompat
  authStyle := .bearerToken
  envVar := envVar
  extraHeaders := []
  chatEndpoint := "/chat/completions"
  requiresApiKey := true

/-- A server on this machine. -/
def ProviderDef.onThisMachine (providerPrefix displayName baseUrl envVar : String) : ProviderDef :=
  { ProviderDef.bearer providerPrefix displayName baseUrl envVar with
    authStyle := .none
    requiresApiKey := false }

def builtinProviders : List ProviderDef :=
  [.bearer "openai" "OpenAI" "https://api.openai.com/v1" "OPENAI_API_KEY",
    .bearer "groq" "Groq" "https://api.groq.com/openai/v1" "GROQ_API_KEY",
    .bearer "together" "Together AI" "https://api.together.xyz/v1" "TOGETHER_API_KEY",
    .bearer "fireworks" "Fireworks AI" "https://api.fireworks.ai/inference/v1" "FIREWORKS_API_KEY",
    .bearer "deepseek" "DeepSeek" "https://api.deepseek.com" "DEEPSEEK_API_KEY",
    .bearer "xai" "xAI (Grok)" "https://api.x.ai/v1" "XAI_API_KEY",
    .bearer "cerebras" "Cerebras" "https://api.cerebras.ai/v1" "CEREBRAS_API_KEY",
    .bearer "sambanova" "SambaNova" "https://api.sambanova.ai/v1" "SAMBANOVA_API_KEY",
    .bearer "perplexity" "Perplexity" "https://api.perplexity.ai" "PERPLEXITY_API_KEY",
    .bearer "mistral" "Mistral" "https://api.mistral.ai/v1" "MISTRAL_API_KEY",
    .bearer "openrouter" "OpenRouter" "https://openrouter.ai/api/v1" "OPENROUTER_API_KEY",
    .bearer "nvidia" "NVIDIA NIM" "https://integrate.api.nvidia.com/v1" "NVIDIA_API_KEY",
    .bearer "cloudflare" "Cloudflare Workers AI"
      "https://api.cloudflare.com/client/v4/accounts/\x7baccount_id\x7d/ai/v1" "CLOUDFLARE_API_KEY",
    .bearer "huggingface" "HuggingFace Inference" "https://api-inference.huggingface.co/v1"
      "HF_API_KEY",
    .bearer "replicate" "Replicate" "https://openai-proxy.replicate.com/v1" "REPLICATE_API_KEY",
    .bearer "lepton" "Lepton AI" "https://api.lepton.ai/v1" "LEPTON_API_KEY",
    .bearer "octoai" "OctoAI" "https://text.octoai.run/v1" "OCTOAI_API_KEY",
    .bearer "anyscale" "Anyscale" "https://api.endpoints.anyscale.com/v1" "ANYSCALE_API_KEY",
    .bearer "moonshot" "Moonshot AI" "https://api.moonshot.cn/v1" "MOONSHOT_API_KEY",
    .bearer "dashscope" "Alibaba DashScope" "https://dashscope.aliyuncs.com/compatible-mode/v1"
      "DASHSCOPE_API_KEY",
    .bearer "zhipu" "Zhipu AI (GLM)" "https://open.bigmodel.cn/api/paas/v4" "ZHIPU_API_KEY",
    .bearer "baichuan" "Baichuan" "https://api.baichuan-ai.com/v1" "BAICHUAN_API_KEY",
    { ProviderDef.bearer "minimax" "Minimax" "https://api.minimax.chat/v1" "MINIMAX_API_KEY" with
      chatEndpoint := "/text/chatcompletion_v2" },
    .bearer "yi" "01.AI (Yi)" "https://api.lingyiwanwu.com/v1" "YI_API_KEY",
    { ProviderDef.bearer "azure" "Azure OpenAI"
        "https://\x7bresource\x7d.openai.azure.com/openai/deployments/\x7bdeployment\x7d"
        "AZURE_OPENAI_API_KEY" with
      authStyle := .customHeader "api-key"
      chatEndpoint := "/chat/completions?api-version=2024-10-21" },
    { providerPrefix := "anthropic"
      displayName := "Anthropic"
      baseUrl := "https://api.anthropic.com"
      protocol := .anthropic
      authStyle := .customHeader "x-api-key"
      envVar := "ANTHROPIC_API_KEY"
      extraHeaders := [("anthropic-version", "2023-06-01")]
      chatEndpoint := "/v1/messages"
      requiresApiKey := true },
    { providerPrefix := "gemini"
      displayName := "Google Gemini"
      baseUrl := "https://generativelanguage.googleapis.com"
      protocol := .gemini
      authStyle := .apiKeyInUrl
      envVar := "GEMINI_API_KEY"
      extraHeaders := []
      chatEndpoint := "/v1beta/models/\x7bmodel\x7d:generateContent"
      requiresApiKey := true },
    { providerPrefix := "cohere"
      displayName := "Cohere"
      baseUrl := "https://api.cohere.com"
      protocol := .cohere
      authStyle := .bearerToken
      envVar := "COHERE_API_KEY"
      extraHeaders := []
      chatEndpoint := "/v2/chat"
      requiresApiKey := true },
    .bearer "ai21" "AI21 Labs" "https://api.ai21.com/studio/v1" "AI21_API_KEY",
    .bearer "reka" "Reka AI" "https://api.reka.ai/v1" "REKA_API_KEY",
    .onThisMachine "ollama" "Ollama" "http://localhost:11434/v1" "OLLAMA_API_KEY",
    .onThisMachine "lmstudio" "LM Studio" "http://localhost:1234/v1" "LMSTUDIO_API_KEY",
    .onThisMachine "vllm" "vLLM" "http://localhost:8000/v1" "VLLM_API_KEY",
    .onThisMachine "tgi" "Text Generation Inference" "http://localhost:8080/v1" "TGI_API_KEY",
    .onThisMachine "localai" "LocalAI" "http://localhost:8080/v1" "LOCALAI_API_KEY"]

def findBuiltin (providerPrefix : String) : Option ProviderDef :=
  builtinProviders.find? fun provider => provider.providerPrefix = providerPrefix

/-- The provider of a model and the model, as its name has them. -/
def splitModelName (modelName : String) : Option (String × String) :=
  (splitOnce ['/'] modelName.toList).map fun cut => (String.ofList cut.1, String.ofList cut.2)

def isCloudModel (modelName : String) : Bool :=
  match splitModelName modelName with
  | some (providerPrefix, _) => (findBuiltin providerPrefix).isSome
  | none => false

theorem nodup_providerPrefixes : (builtinProviders.map ProviderDef.providerPrefix).Nodup := by
  decide +kernel

/-! ## Keys -/

/-- Keys of providers, by their prefixes. -/
abbrev Keys := AList fun _ : String => String

/-- Insert a key where there is none. -/
def orInsert (keys : Keys) (providerPrefix key : String) : Keys :=
  if providerPrefix ∈ keys then keys else keys.insert providerPrefix key

/-- The part of the configuration that is about providers. The last two fields are read, but not
written any more. -/
structure CloudConfig where
  apiKeys : Keys
  openaiApiKey : Option String
  anthropicApiKey : Option String

namespace CloudConfig

/-- The keys, with those of the older fields where there are none. -/
def withLegacy (config : CloudConfig) : Keys :=
  let keys := config.openaiApiKey.elim config.apiKeys (orInsert config.apiKeys "openai")
  config.anthropicApiKey.elim keys (orInsert keys "anthropic")

/-- Move the keys of the older fields to the others. -/
def migrateLegacy (config : CloudConfig) : CloudConfig := ⟨config.withLegacy, none, none⟩

/-- The key that an older field has for a provider. -/
def legacyKey (config : CloudConfig) (providerPrefix : String) : Option String :=
  if providerPrefix = "openai" then config.openaiApiKey
  else if providerPrefix = "anthropic" then config.anthropicApiKey
  else none

end CloudConfig

/-- The key of a provider in the environment, unless it is empty. -/
def envKey (env : String → Option String) (provider : ProviderDef) : Option String :=
  (env provider.envVar).filter fun val => val ≠ ""

/-- Take a provider's key from the environment where there is none. -/
def fromEnv (env : String → Option String) (keys : Keys) (provider : ProviderDef) : Keys :=
  (envKey env provider).elim keys (orInsert keys provider.providerPrefix)

def resolveAllKeys (env : String → Option String) (config : CloudConfig) : Keys :=
  builtinProviders.foldl (fromEnv env) config.withLegacy

theorem lookup_orInsert (keys : Keys) (providerPrefix key other : String) :
    (orInsert keys providerPrefix key).lookup other =
      (keys.lookup other).or (if other = providerPrefix then some key else none) := by
  rw [orInsert]
  by_cases hother : other = providerPrefix
  · subst hother
    rw [if_pos rfl]
    split_ifs with hmem
    · obtain ⟨old, hold⟩ := Option.isSome_iff_exists.mp (AList.lookup_isSome.mpr hmem)
      rw [hold]
      rfl
    · rw [AList.lookup_insert, AList.lookup_eq_none.mpr hmem]
      rfl
  · rw [if_neg hother, Option.or_none]
    split_ifs
    · rfl
    · exact AList.lookup_insert_ne hother

theorem lookup_elim_orInsert (keys : Keys) (providerPrefix other : String) (key : Option String) :
    (key.elim keys (orInsert keys providerPrefix)).lookup other =
      (keys.lookup other).or (if other = providerPrefix then key else none) := by
  cases key with
  | none => simp
  | some key => exact lookup_orInsert keys providerPrefix key other

theorem lookup_withLegacy (config : CloudConfig) (providerPrefix : String) :
    config.withLegacy.lookup providerPrefix =
      (config.apiKeys.lookup providerPrefix).or (config.legacyKey providerPrefix) := by
  rw [CloudConfig.withLegacy, lookup_elim_orInsert, lookup_elim_orInsert, CloudConfig.legacyKey,
    Option.or_assoc]
  by_cases hopenai : providerPrefix = "openai"
  · subst hopenai
    simp
  · by_cases hanthropic : providerPrefix = "anthropic"
    · subst hanthropic
      simp
    · simp [hopenai, hanthropic]

/-- What the environment adds, provider by provider. -/
theorem lookup_foldl_fromEnv (env : String → Option String) (providers : List ProviderDef)
    (hnodup : (providers.map ProviderDef.providerPrefix).Nodup) (keys : Keys)
    (providerPrefix : String) :
    (providers.foldl (fromEnv env) keys).lookup providerPrefix =
      (keys.lookup providerPrefix).or
        ((providers.find? fun provider => provider.providerPrefix = providerPrefix).bind
          (envKey env)) := by
  induction providers generalizing keys with
  | nil => simp
  | cons provider providers ih =>
      obtain ⟨hfresh, hlater⟩ := List.nodup_cons.mp hnodup
      rw [List.foldl_cons, ih hlater, fromEnv, lookup_elim_orInsert, Option.or_assoc,
        List.find?_cons]
      by_cases hprovider : providerPrefix = provider.providerPrefix
      · -- no later provider has the same prefix
        have hnone : (providers.find? fun other => other.providerPrefix = providerPrefix) =
            none := by
          rw [List.find?_eq_none]
          intro other hother hsame
          refine hfresh (List.mem_map.mpr ⟨other, hother, ?_⟩)
          rw [of_decide_eq_true hsame, hprovider]
        rw [hnone, if_pos hprovider, decide_eq_true hprovider.symm]
        simp
      · rw [if_neg hprovider, decide_eq_false (Ne.symm hprovider), Option.none_or]

/-- A key that is found: what the configuration has, the older field, or the environment. -/
theorem lookup_resolveAllKeys (env : String → Option String) (config : CloudConfig)
    (providerPrefix : String) :
    (resolveAllKeys env config).lookup providerPrefix =
      ((config.apiKeys.lookup providerPrefix).or (config.legacyKey providerPrefix)).or
        ((findBuiltin providerPrefix).bind (envKey env)) := by
  rw [resolveAllKeys, lookup_foldl_fromEnv env _ nodup_providerPrefixes, lookup_withLegacy]
  rfl

/-- **Where a key comes from**: the configuration, or else the older field for the provider, or
else the provider's variable of the environment, if it is not empty. Whether the older fields have
been moved makes no difference. -/
theorem keys_by_precedence (env : String → Option String) (config : CloudConfig)
    (providerPrefix : String) :
    (resolveAllKeys env config).lookup providerPrefix =
        ((config.apiKeys.lookup providerPrefix).or (config.legacyKey providerPrefix)).or
          ((findBuiltin providerPrefix).bind (envKey env)) ∧
      (resolveAllKeys env config.migrateLegacy).lookup providerPrefix =
        (resolveAllKeys env config).lookup providerPrefix := by
  refine ⟨lookup_resolveAllKeys env config providerPrefix, ?_⟩
  have hnone : config.migrateLegacy.legacyKey providerPrefix = none := by
    rw [CloudConfig.legacyKey]
    split_ifs <;> rfl
  have hmoved : config.migrateLegacy.apiKeys.lookup providerPrefix =
      (config.apiKeys.lookup providerPrefix).or (config.legacyKey providerPrefix) :=
    lookup_withLegacy config providerPrefix
  rw [lookup_resolveAllKeys, lookup_resolveAllKeys, hmoved, hnone, Option.or_none]

/-! ## Requests -/

structure HttpRequest where
  url : String
  headers : List (String × String)
  body : Value

namespace CloudProtocol

def buildUrl (protocol : CloudProtocol) (provider : ProviderDef) (modelId : String) : String :=
  match protocol with
  | .gemini => s!"{provider.baseUrl}/v1beta/models/{modelId}:generateContent"
  | .openAiCompat | .anthropic | .cohere => provider.baseUrl ++ provider.chatEndpoint

def buildHeaders (protocol : CloudProtocol) (provider : ProviderDef) (apiKey : Option String) :
    List (String × String) :=
  let authentication := match protocol, apiKey, provider.authStyle with
    | .gemini, _, _ => []
    | _, some key, .bearerToken => [("Authorization", s!"Bearer {key}")]
    | _, some key, .customHeader name => [(name, key)]
    | _, _, _ => []
  authentication ++ provider.extraHeaders ++ [("Content-Type", "application/json")]

end CloudProtocol

/-- Append a key to an address. -/
def urlWithKey (url key : String) : String :=
  let separator := if '?' ∈ url.toList then "&" else "?"
  s!"{url}{separator}key={key}"

/-- The request to a provider, with the key where the provider wants it. -/
def requestTo (provider : ProviderDef) (apiKey : Option String) (modelId : String) (body : Value) :
    HttpRequest :=
  let url := provider.protocol.buildUrl provider modelId
  { url := match provider.authStyle, apiKey with
      | .apiKeyInUrl, some key => urlWithKey url key
      | _, _ => url
    headers := provider.protocol.buildHeaders provider apiKey
    body := body }

structure CloudBackend where
  apiKeys : Keys

/-- The words for a provider that is not known and for a key that is missing. -/
structure ResolveWords where
  unknown : String → String
  missing : ProviderDef → String

namespace CloudBackend

def withConfig (env : String → Option String) (config : CloudConfig) : CloudBackend :=
  ⟨resolveAllKeys env config⟩

def availableProviderList : String :=
  ", ".intercalate (builtinProviders.map ProviderDef.providerPrefix)

variable (backend : CloudBackend)

/-- The providers that can be asked. -/
def availableProviders : List ProviderDef :=
  builtinProviders.filter fun provider =>
    !provider.requiresApiKey ∨ provider.providerPrefix ∈ backend.apiKeys

def isAvailable : Bool :=
  builtinProviders.any fun provider =>
    !provider.requiresApiKey ∨ provider.providerPrefix ∈ backend.apiKeys

def resolveWith (words : ResolveWords) (modelName : String) :
    Except InferenceError (ProviderDef × Option String × String) :=
  match splitModelName modelName with
  | none =>
      .error (.generationError s!"Cloud model name must be 'provider/model', got '{modelName}'")
  | some (providerPrefix, modelId) =>
      match findBuiltin providerPrefix with
      | none => .error (.generationError (words.unknown providerPrefix))
      | some provider =>
          let apiKey := backend.apiKeys.lookup providerPrefix
          if provider.requiresApiKey ∧ apiKey = none then
            .error (.generationError (words.missing provider))
          else .ok (provider, apiKey, modelId)

def resolveProvider : String → Except InferenceError (ProviderDef × Option String × String) :=
  backend.resolveWith
    { unknown := fun providerPrefix => s!"Unknown cloud provider '{providerPrefix}'. " ++
        s!"Available providers: {availableProviderList}"
      missing := fun provider => s!"{provider.displayName} API key not set. " ++
        s!"Set {provider.envVar} env var or add to config [cloud.api_keys." ++
        s!"{provider.providerPrefix}]." }

/-- A stream looks its provider up by itself, with shorter words. -/
def resolveForStream : String → Except InferenceError (ProviderDef × Option String × String) :=
  backend.resolveWith
    { unknown := fun providerPrefix => s!"Unknown cloud provider '{providerPrefix}'"
      missing := fun provider =>
        s!"{provider.displayName} API key not set. Set {provider.envVar} env var." }

/-- Loading a model checks that its provider can be asked. -/
def loadModel (handleId : ℕ) (modelName : String) : Except InferenceError ModelHandle := do
  let _ ← backend.resolveProvider modelName
  return ⟨handleId, modelName, .cloud⟩

end CloudBackend

/-- What is found of an answer: its status, and its body in chunks. -/
structure HttpAnswer where
  isSuccess : Bool
  status : String
  chunks : List (Except String (List UInt8))

/-- What answers requests, and how the bytes of a body are read as a text. -/
structure Http where
  send : HttpRequest → Except String HttpAnswer
  decode : List UInt8 → List Char

/-- The text of a body, if it arrives as a whole. -/
def Http.text (http : Http) (answer : HttpAnswer) : Except String (List Char) :=
  (answer.chunks.mapM id).map fun chunks => http.decode chunks.flatten

namespace CloudBackend

variable {F : Type} (backend : CloudBackend) (http : Http) (reader : JsonReader)
  (floats : RequestFloats F) (modelName : String) (req : GenerateRequest F)

def apiError (provider : ProviderDef) (status : String) (text : List Char) : InferenceError :=
  .generationError s!"{provider.displayName} API error ({status}): {String.ofList text}"

def generate : Except InferenceError GenerateResponse :=
  match backend.resolveProvider modelName with
  | .error e => .error e
  | .ok (provider, apiKey, modelId) =>
      let body := provider.protocol.buildRequestBody floats modelId req false
      match http.send (requestTo provider apiKey modelId body) with
      | .error e => .error (.generationError s!"HTTP error: {e}")
      | .ok answer =>
          match http.text answer with
          | .error e => .error (.generationError s!"Read error: {e}")
          | .ok text =>
              if answer.isSuccess then
                match reader.fromStr text with
                | .error e => .error (.generationError s!"Parse error: {e}")
                | .ok json => provider.protocol.parseResponse reader json
              else .error (apiError provider answer.status text)

def stream : List (Except InferenceError Token) :=
  match backend.resolveForStream modelName with
  | .error e => [.error e]
  | .ok (provider, apiKey, modelId) =>
      let body := provider.protocol.buildRequestBody floats modelId req true
      match http.send (requestTo provider apiKey modelId body) with
      | .error e => [.error (.generationError s!"HTTP error: {e}")]
      | .ok answer =>
          if answer.isSuccess then provider.protocol.streamTokens reader answer.chunks
          else
            let text := (http.text answer).toOption.getD []
            [.error (apiError provider answer.status text)]

end CloudBackend

/-! ### Names of models -/

theorem slash_notMem_providerPrefixes :
    ∀ provider ∈ builtinProviders, '/' ∉ provider.providerPrefix.toList := by
  decide +kernel

theorem findBuiltin_eq_some {providerPrefix : String} {provider : ProviderDef}
    (h : findBuiltin providerPrefix = some provider) :
    provider ∈ builtinProviders ∧ provider.providerPrefix = providerPrefix :=
  ⟨List.mem_of_find?_eq_some h, by simpa using List.find?_some h⟩

theorem findBuiltin_of_mem {provider : ProviderDef} (h : provider ∈ builtinProviders) :
    findBuiltin provider.providerPrefix = some provider := by
  cases hfound : findBuiltin provider.providerPrefix with
  | none =>
      have hnone := List.find?_eq_none.mp hfound provider h
      exact absurd (decide_eq_true rfl) hnone
  | some other =>
      obtain ⟨hother, hsame⟩ := findBuiltin_eq_some hfound
      exact congrArg some (List.inj_on_of_nodup_map nodup_providerPrefixes hother h hsame)

/-- A model of a provider is named by the provider's prefix, a slash and its own name. -/
theorem splitModelName_eq_some_iff {modelName providerPrefix modelId : String} :
    splitModelName modelName = some (providerPrefix, modelId) ↔
      modelName = providerPrefix ++ "/" ++ modelId ∧ '/' ∉ providerPrefix.toList := by
  rw [splitModelName, Option.map_eq_some_iff]
  constructor
  · rintro ⟨cut, hcut, hpair⟩
    cases hpair
    rcases splitOnce_singleton '/' modelName.toList with ⟨hnone, -⟩ |
      ⟨front, back, hsome, htext, hfront⟩
    · rw [hnone] at hcut
      cases hcut
    · obtain rfl := Option.some.inj (hsome.symm.trans hcut)
      refine ⟨?_, by simpa using hfront⟩
      rw [← String.toList_inj, htext]
      simp
  · rintro ⟨rfl, hslash⟩
    refine ⟨(providerPrefix.toList, modelId.toList), ?_, by simp⟩
    have hcut := splitOnce_append hslash [] modelId.toList
    simpa using hcut

namespace CloudBackend

variable {backend : CloudBackend} {words : ResolveWords} {modelName : String}

/-- What a model is resolved to. -/
theorem resolveWith_eq_ok_iff {provider : ProviderDef} {apiKey : Option String} {modelId : String} :
    backend.resolveWith words modelName = .ok (provider, apiKey, modelId) ↔
      provider ∈ backend.availableProviders ∧
        modelName = provider.providerPrefix ++ "/" ++ modelId ∧
        apiKey = backend.apiKeys.lookup provider.providerPrefix := by
  have havailable (hmem : provider ∈ builtinProviders) :
      provider ∈ backend.availableProviders ↔ ¬ (provider.requiresApiKey ∧
        backend.apiKeys.lookup provider.providerPrefix = none) := by
    rw [availableProviders, List.mem_filter, and_iff_right hmem, AList.lookup_eq_none]
    cases provider.requiresApiKey <;> simp
  constructor
  · intro h
    rw [resolveWith] at h
    cases hsplit : splitModelName modelName with
    | none =>
        rw [hsplit] at h
        cases h
    | some cut =>
        obtain ⟨providerPrefix, name⟩ := cut
        rw [hsplit] at h
        dsimp only at h
        cases hfound : findBuiltin providerPrefix with
        | none =>
            rw [hfound] at h
            cases h
        | some found =>
            rw [hfound] at h
            dsimp only at h
            split_ifs at h with hmissing
            cases h
            obtain ⟨hmem, rfl⟩ := findBuiltin_eq_some hfound
            exact ⟨(havailable hmem).mpr hmissing, (splitModelName_eq_some_iff.mp hsplit).1, rfl⟩
  · rintro ⟨hprovider, rfl, rfl⟩
    have hmem : provider ∈ builtinProviders := (List.mem_filter.mp hprovider).1
    have hsplit : splitModelName (provider.providerPrefix ++ "/" ++ modelId) =
        some (provider.providerPrefix, modelId) :=
      splitModelName_eq_some_iff.mpr ⟨rfl, slash_notMem_providerPrefixes provider hmem⟩
    rw [resolveWith, hsplit]
    dsimp only
    rw [findBuiltin_of_mem hmem]
    dsimp only
    rw [if_neg ((havailable hmem).mp hprovider)]

end CloudBackend

namespace CloudBackend

variable {F : Type} {backend : CloudBackend} {words : ResolveWords} {modelName : String}

/-- The name is that of a model of a provider that can be asked. -/
def Names (backend : CloudBackend) (modelName : String) : Prop :=
  ∃ provider ∈ backend.availableProviders, ∃ modelId : String,
    modelName = provider.providerPrefix ++ "/" ++ modelId

theorem exists_resolveWith_ok_iff (words : ResolveWords) :
    (∃ resolved, backend.resolveWith words modelName = .ok resolved) ↔ backend.Names modelName := by
  constructor
  · rintro ⟨⟨provider, apiKey, modelId⟩, h⟩
    obtain ⟨hprovider, hname, -⟩ := resolveWith_eq_ok_iff.mp h
    exact ⟨provider, hprovider, modelId, hname⟩
  · rintro ⟨provider, hprovider, modelId, hname⟩
    exact ⟨_, resolveWith_eq_ok_iff.mpr ⟨hprovider, hname, rfl⟩⟩

theorem exists_resolveWith_error (h : ¬ backend.Names modelName) (words : ResolveWords) :
    ∃ e, backend.resolveWith words modelName = .error e := by
  cases hresolve : backend.resolveWith words modelName with
  | error e => exact ⟨e, rfl⟩
  | ok resolved => exact absurd ((exists_resolveWith_ok_iff words).mp ⟨resolved, hresolve⟩) h

/-- **A model can be loaded just if its provider is listed**, and otherwise nothing is sent for
it: whatever would have answered, a complete answer is an error and a stream is one error. -/
theorem loads_iff_names (handleId : ℕ) (reader : JsonReader) (floats : RequestFloats F)
    (req : GenerateRequest F) :
    ((∃ handle, backend.loadModel handleId modelName = .ok handle) ↔ backend.Names modelName) ∧
      (¬ backend.Names modelName → ∃ failure failure' : InferenceError, ∀ http : Http,
        backend.generate http reader floats modelName req = .error failure ∧
          backend.stream http reader floats modelName req = [.error failure']) := by
  constructor
  · rw [← exists_resolveWith_ok_iff]
    constructor
    · rintro ⟨handle, h⟩
      rw [loadModel] at h
      cases hresolve : backend.resolveProvider modelName with
      | error e =>
          rw [hresolve] at h
          cases h
      | ok resolved => exact ⟨resolved, hresolve⟩
    · rintro ⟨resolved, h⟩
      refine ⟨⟨handleId, modelName, .cloud⟩, ?_⟩
      rw [loadModel, resolveProvider, h]
      rfl
  · intro hnone
    obtain ⟨e, he⟩ := exists_resolveWith_error hnone _
    obtain ⟨e', he'⟩ := exists_resolveWith_error hnone _
    refine ⟨e, e', fun http => ⟨?_, ?_⟩⟩
    · rw [generate, resolveProvider, he]
    · rw [stream, resolveForStream, he']

/-! ## Whose keys are used -/

/-- What the configuration and the environment say of a provider is the same. -/
structure SameSources (provider : ProviderDef) (env env' : String → Option String)
    (config config' : CloudConfig) : Prop where
  sameKey : config.apiKeys.lookup provider.providerPrefix =
    config'.apiKeys.lookup provider.providerPrefix
  sameLegacy : config.legacyKey provider.providerPrefix = config'.legacyKey provider.providerPrefix
  sameEnv : env provider.envVar = env' provider.envVar

theorem keyless_providers :
    ∀ provider ∈ builtinProviders, provider.authStyle = .none →
      provider.requiresApiKey = false := by
  decide +kernel

/-- A provider that wants no key is shown none. -/
theorem requestTo_keyless {provider : ProviderDef} (h : provider.authStyle = .none)
    (apiKey apiKey' : Option String) (modelId : String) (body : Value) :
    requestTo provider apiKey modelId body = requestTo provider apiKey' modelId body := by
  have hheaders : provider.protocol.buildHeaders provider apiKey =
      provider.protocol.buildHeaders provider apiKey' := by
    simp only [CloudProtocol.buildHeaders, h]
    cases provider.protocol <;> cases apiKey <;> cases apiKey' <;> rfl
  simp only [requestTo, hheaders, h]

theorem lookup_of_sameSources {provider : ProviderDef} {env env' : String → Option String}
    {config config' : CloudConfig} (hmem : provider ∈ builtinProviders)
    (h : SameSources provider env env' config config') :
    (resolveAllKeys env config).lookup provider.providerPrefix =
      (resolveAllKeys env' config').lookup provider.providerPrefix := by
  rw [lookup_resolveAllKeys, lookup_resolveAllKeys, h.sameKey, h.sameLegacy,
    findBuiltin_of_mem hmem, Option.bind_some, Option.bind_some, envKey, envKey,
    h.sameEnv]

/-- How a model of a provider is resolved. -/
theorem resolveWith_of_mem {provider : ProviderDef} (hmem : provider ∈ builtinProviders)
    (words : ResolveWords) (modelId : String) :
    backend.resolveWith words (provider.providerPrefix ++ "/" ++ modelId) =
      if provider.requiresApiKey ∧ backend.apiKeys.lookup provider.providerPrefix = none then
        .error (.generationError (words.missing provider))
      else .ok (provider, backend.apiKeys.lookup provider.providerPrefix, modelId) := by
  have hsplit : splitModelName (provider.providerPrefix ++ "/" ++ modelId) =
      some (provider.providerPrefix, modelId) :=
    splitModelName_eq_some_iff.mpr ⟨rfl, slash_notMem_providerPrefixes provider hmem⟩
  rw [resolveWith, hsplit]
  dsimp only
  rw [findBuiltin_of_mem hmem]

/-- **Only a provider's own key is used for it.** What is asked of a provider, and so what comes
of it, depends on no key but its own, and on none at all if it wants none. -/
theorem answers_of_sameSources {provider : ProviderDef} (hmem : provider ∈ builtinProviders)
    {env env' : String → Option String} {config config' : CloudConfig}
    (hsame : provider.authStyle = .none ∨ SameSources provider env env' config config')
    (modelId : String) (http : Http) (reader : JsonReader) (floats : RequestFloats F)
    (req : GenerateRequest F) :
    (withConfig env config).generate http reader floats
          (provider.providerPrefix ++ "/" ++ modelId) req =
        (withConfig env' config').generate http reader floats
          (provider.providerPrefix ++ "/" ++ modelId) req ∧
      (withConfig env config).stream http reader floats
          (provider.providerPrefix ++ "/" ++ modelId) req =
        (withConfig env' config').stream http reader floats
          (provider.providerPrefix ++ "/" ++ modelId) req := by
  have hkeys : provider.authStyle = .none ∨
      (withConfig env config).apiKeys.lookup provider.providerPrefix =
        (withConfig env' config').apiKeys.lookup provider.providerPrefix :=
    hsame.imp id (lookup_of_sameSources hmem)
  rw [generate, generate, stream, stream, resolveProvider, resolveProvider, resolveForStream,
    resolveForStream, resolveWith_of_mem hmem, resolveWith_of_mem hmem, resolveWith_of_mem hmem,
    resolveWith_of_mem hmem]
  rcases hkeys with hnone | hsame
  · have hfree : provider.requiresApiKey = false := keyless_providers provider hmem hnone
    simp only [hfree, Bool.false_eq_true, false_and, if_false]
    refine ⟨?_, ?_⟩
    · rw [requestTo_keyless hnone]
    · rw [requestTo_keyless hnone]
  · rw [hsame]
    exact ⟨rfl, rfl⟩

/-- Something that answers nothing but an empty body. -/
def silentHttp : Http := ⟨fun _ => .ok ⟨true, "200 OK", []⟩, lossy⟩

def helloRequest : GenerateRequest Unit :=
  { CloudProtocol.twoSystemMessages with messages := [.user [.text "Hello"]] }

theorem answers_of_sameSources_openai :
    let provider := ProviderDef.bearer "openai" "OpenAI" "https://api.openai.com/v1"
      "OPENAI_API_KEY"
    let config : CloudConfig := ⟨∅, some "key", none⟩
    let config' : CloudConfig := ⟨∅, some "key", some "other key"⟩
    let modelName := provider.providerPrefix ++ "/" ++ "gpt"
    let backend := withConfig (fun _ => none) config
    let backend' := withConfig (fun _ => none) config'
    backend.generate silentHttp plainReader CloudProtocol.unitFloats modelName helloRequest =
        backend'.generate silentHttp plainReader CloudProtocol.unitFloats modelName helloRequest ∧
      backend.stream silentHttp plainReader CloudProtocol.unitFloats modelName helloRequest =
        backend'.stream silentHttp plainReader CloudProtocol.unitFloats modelName helloRequest :=
  answers_of_sameSources List.mem_cons_self (Or.inr ⟨rfl, rfl, rfl⟩) "gpt" silentHttp plainReader
    CloudProtocol.unitFloats helloRequest

/-! ## Streams of Gemini -/

end CloudBackend

/-- Bodies are texts in UTF-8, and are read as such. -/
def Http.SendsTexts (http : Http) : Prop :=
  ∀ request answer, http.send request = .ok answer → ∀ chunks : List (List UInt8),
    answer.chunks = chunks.map .ok →
      ∃ text, chunks.flatten = encode text ∧ http.decode chunks.flatten = text

theorem eq_map_ok_of_mapM {α ε : Type} {results : List (Except ε α)} {values : List α}
    (h : results.mapM id = .ok values) : results = values.map .ok := by
  induction results generalizing values with
  | nil =>
      cases h
      rfl
  | cons result results ih =>
      rw [List.mapM_cons] at h
      cases result with
      | error e => cases h
      | ok value =>
          cases hlater : results.mapM id with
          | error e =>
              rw [hlater] at h
              cases h
          | ok later =>
              rw [hlater] at h
              cases h
              rw [ih hlater]
              rfl

/-- A text that has been read arrived as a whole. -/
theorem Http.exists_chunks_of_text {http : Http} {answer : HttpAnswer} {text : List Char}
    (h : http.text answer = .ok text) :
    ∃ chunks : List (List UInt8),
      answer.chunks = chunks.map .ok ∧ http.decode chunks.flatten = text := by
  rw [Http.text] at h
  cases hchunks : answer.chunks.mapM id with
  | error e =>
      rw [hchunks] at h
      cases h
  | ok chunks =>
      rw [hchunks] at h
      exact ⟨chunks, eq_map_ok_of_mapM hchunks, Except.ok.inj h⟩

/-- A text that is read is a document with white space around it. -/
theorem JsonReader.docsText_of_fromStr {reader : JsonReader} {text : List Char} {json : Value}
    (h : reader.fromStr text = .ok json) :
    ∃ (before : Space) (tree : Tree) (after : Space),
      tree.Strict ∧ text = docsText [(before, tree)] after := by
  rw [JsonReader.fromStr, fromStrWithin] at h
  cases hread : JsonText.fromStr text with
  | none =>
      rw [hread] at h
      cases h
  | some value =>
      obtain ⟨before, tree, after, htext, hvalue⟩ := exists_tree_of_fromStr hread
      refine ⟨before, tree, after, tree.isSome_value.mp (Option.isSome_of_eq_some hvalue), ?_⟩
      rw [htext, docsText, List.flatMap_singleton, List.append_assoc]

namespace CloudBackend

variable {F : Type} {backend : CloudBackend}

/-- A complete answer comes of a document that was sent with success. -/
theorem exists_answer_of_generate {http : Http} {reader : JsonReader} {floats : RequestFloats F}
    {req : GenerateRequest F} {modelName : String} {response : GenerateResponse}
    (h : backend.generate http reader floats modelName req = .ok response) :
    ∃ provider apiKey modelId answer text json,
      backend.resolveProvider modelName = .ok (provider, apiKey, modelId) ∧
        http.send (requestTo provider apiKey modelId
          (provider.protocol.buildRequestBody floats modelId req false)) = .ok answer ∧
        http.text answer = .ok text ∧ answer.isSuccess = true ∧ reader.fromStr text = .ok json ∧
        provider.protocol.parseResponse reader json = .ok response := by
  rw [generate] at h
  cases hresolve : backend.resolveProvider modelName with
  | error e =>
      rw [hresolve] at h
      cases h
  | ok resolved =>
      obtain ⟨provider, apiKey, modelId⟩ := resolved
      rw [hresolve] at h
      dsimp only at h
      cases hsend : http.send (requestTo provider apiKey modelId
          (provider.protocol.buildRequestBody floats modelId req false)) with
      | error e =>
          rw [hsend] at h
          cases h
      | ok answer =>
          rw [hsend] at h
          dsimp only at h
          cases htext : http.text answer with
          | error e =>
              rw [htext] at h
              cases h
          | ok text =>
              rw [htext] at h
              dsimp only at h
              split_ifs at h with hsuccess
              cases hjson : reader.fromStr text with
              | error e =>
                  rw [hjson] at h
                  cases h
              | ok json =>
                  rw [hjson] at h
                  exact ⟨provider, apiKey, modelId, answer, text, json, rfl, hsend, htext, hsuccess,
                    hjson, h⟩

/-- **Gemini does not stream.** A stream sends the request that a complete answer has, to the same
address. What answers it is one document and no event, so that whenever there is a complete answer,
the stream ends without a token and without an error. -/
theorem stream_gemini {provider : ProviderDef} (hmem : provider ∈ builtinProviders)
    (hprotocol : provider.protocol = .gemini) {http : Http} (hhttp : http.SendsTexts)
    {reader : JsonReader} {floats : RequestFloats F} {req : GenerateRequest F} {modelId : String}
    {response : GenerateResponse}
    (h : backend.generate http reader floats (provider.providerPrefix ++ "/" ++ modelId) req =
      .ok response) :
    backend.stream http reader floats (provider.providerPrefix ++ "/" ++ modelId) req = [] := by
  have hbody : provider.protocol.buildRequestBody floats modelId req true =
      provider.protocol.buildRequestBody floats modelId req false := by
    rw [hprotocol]
    rfl
  obtain ⟨provider', apiKey, modelId', answer, text, json, hresolve, hsend, htext, hsuccess, hjson,
    -⟩ := exists_answer_of_generate h
  rw [resolveProvider, resolveWith_of_mem hmem] at hresolve
  rw [stream, resolveForStream, resolveWith_of_mem hmem]
  split_ifs at hresolve ⊢ with hmissing
  cases hresolve
  dsimp only
  rw [hbody, hsend]
  dsimp only
  rw [if_pos hsuccess]
  obtain ⟨chunks, hwhole, hdecode⟩ := Http.exists_chunks_of_text htext
  obtain ⟨sent, hbytes, hsent⟩ := hhttp _ _ hsend chunks hwhole
  obtain rfl : sent = text := hsent.symm.trans hdecode
  obtain ⟨before, tree, after, hstrict, rfl⟩ := reader.docsText_of_fromStr hjson
  rw [hwhole]
  exact streamTokens_of_documents provider.protocol reader (List.forall_mem_singleton.mpr hstrict)
    hbytes

/-- What answers with a greeting. -/
def helloHttp : Http :=
  ⟨fun _ => .ok ⟨true, "200 OK", [.ok (encode (write (PartsProtocol.geminiBody ["Hello"])))]⟩,
    lossy⟩

theorem sendsTexts_helloHttp : helloHttp.SendsTexts := by
  intro request answer hsend chunks hchunks
  cases hsend
  obtain ⟨chunk, rfl, hchunk⟩ := List.map_eq_singleton_iff.mp hchunks.symm
  cases hchunk
  refine ⟨_, List.flatten_singleton, ?_⟩
  rw [List.flatten_singleton]
  exact lossy_encode _

theorem takes_geminiBody : plainReader.Takes (PartsProtocol.geminiBody ["Hello"]) := by
  refine ⟨?_, ?_, rfl⟩
  · simp [PartsProtocol.geminiBody, jsonObject, jsonFields, Gemini.textPart, jsonString,
      Value.Sound, SoundItems, SoundFields]
  · decide

theorem generate_helloHttp {provider : ProviderDef} (hmem : provider ∈ builtinProviders)
    (hprotocol : provider.protocol = .gemini) (modelId : String) :
    CloudBackend.generate ⟨(∅ : Keys).insert provider.providerPrefix "key"⟩ helloHttp plainReader
        CloudProtocol.unitFloats (provider.providerPrefix ++ "/" ++ modelId) helloRequest =
      .ok (.text "Hello") := by
  obtain ⟨held, hread, hheld⟩ := takes_geminiBody.fromStr_write
  have htext (request : HttpRequest) : ∃ answer, helloHttp.send request = .ok answer ∧
      answer.isSuccess = true ∧
      helloHttp.text answer = .ok (write (PartsProtocol.geminiBody ["Hello"])) :=
    ⟨_, rfl, rfl, congrArg Except.ok (by
      change lossy (encode (write (PartsProtocol.geminiBody ["Hello"])) ++ []) = _
      rw [List.append_nil, lossy_encode])⟩
  rw [generate, resolveProvider, resolveWith_of_mem hmem, AList.lookup_insert,
    if_neg (fun h => by cases h.2)]
  dsimp only
  obtain ⟨answer, hsend, hsuccess, hanswer⟩ := htext _
  rw [hsend]
  dsimp only
  rw [hanswer]
  dsimp only
  rw [if_pos hsuccess, hread]
  dsimp only
  cases hheld
  rw [hprotocol]
  rfl

theorem stream_gemini_hello :
    CloudBackend.stream ⟨(∅ : Keys).insert "gemini" "key"⟩ helloHttp plainReader
      CloudProtocol.unitFloats ("gemini" ++ "/" ++ "model") helloRequest = [] := by
  obtain ⟨provider, hmem, hprotocol, hname⟩ : ∃ provider ∈ builtinProviders,
      provider.protocol = .gemini ∧ provider.providerPrefix = "gemini" :=
    ⟨_, List.getElem_mem (by decide : 26 < builtinProviders.length), rfl, rfl⟩
  have hstream := stream_gemini hmem hprotocol sendsTexts_helloHttp
    (generate_helloHttp hmem hprotocol "model")
  rw [hname] at hstream
  exact hstream

end CloudBackend

end HiveBear.Inference.Cloud

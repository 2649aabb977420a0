import Forge.Lib.GoStrings

/-!
# The objects an Application asks for (`controller/application_controller.go`, `api/v1alpha1`)

The Application resource and the Deployment, Service and ConfigMap the operator renders from it. A map is
an association list in the order of the source. `resource.MustParse` panics on texts that are no quantity,
so a Deployment may fail to be rendered (`none`).
-/

namespace Forge.Controller

open GoString

/-! ### The Application -/

structure EnvVar where
  Name : GoString
  Value : GoString
deriving DecidableEq

structure ResourceRequests where
  CPU : GoString
  Memory : GoString
deriving DecidableEq

structure SecuritySettings where
  ReadOnlyRootFilesystem : Option Bool
deriving DecidableEq

structure ApplicationSpec where
  Image : GoString
  Port : Int
  Replicas : Int
  Tier : Int
  Env : List EnvVar
  Resources : ResourceRequests
  Expose : Bool
  Security : SecuritySettings
deriving DecidableEq

inductive ConditionStatus
  | ConditionTrue | ConditionFalse | ConditionUnknown
deriving DecidableEq

/-- `metav1.Condition`; `none` is the zero time. -/
structure Condition where
  ConditionType : GoString
  Status : ConditionStatus
  ObservedGeneration : Int
  LastTransitionTime : Option Int
  Reason : GoString
  Message : GoString
deriving DecidableEq

structure ApplicationStatus where
  Phase : GoString
  ObservedGeneration : Int
  Replicas : Int
  ReadyReplicas : Int
  Conditions : List Condition
deriving DecidableEq

/-- The resource with the metadata the controller and the API server use. -/
structure Application where
  Name : GoString
  Namespace : GoString
  UID : GoString
  Generation : Int
  ResourceVersion : Nat
  Spec : ApplicationSpec
  Status : ApplicationStatus
deriving DecidableEq

/-! ### Quantities -/

/-- What is left of `s` after a sign. -/
def dropSign : GoString → GoString
  | b :: s => if b = 0x2B ∨ b = 0x2D then s else b :: s
  | [] => []

/-- A number, `12`, `1.5`, `1.` or `.5`, at the front of `s`, and the rest. -/
def dropNumber (s : GoString) : Option GoString :=
  match s.span isDigit with
  | (whole, 0x2E :: t) =>
    match t.span isDigit with
    | (frac, rest) => if whole = [] ∧ frac = [] then none else some rest
  | (whole, rest) => if whole = [] then none else some rest

def siSuffixes : List GoString :=
  ["Ki", "Mi", "Gi", "Ti", "Pi", "Ei", "n", "u", "m", "", "k", "M", "G", "T", "P", "E"]

def isSuffix (s : GoString) : Bool :=
  siSuffixes.contains s || match s with
    | b :: t => (b = 0x65 || b = 0x45) && dropNumber (dropSign t) = some []
    | [] => false

/-- The documented grammar of Kubernetes quantities: a signed number with a suffix. `resource.MustParse` is taken
to follow it. The library departs from its documentation on a few texts: it panics on an exponent that is no
integer (`1e1.5`, `1e.5`, `1e1.`), and it takes `.` and `+`. -/
def isQuantity (s : GoString) : Bool :=
  match dropNumber (dropSign s) with
  | some suffix => isSuffix suffix
  | none => false

/-- A quantity, as the text it was parsed from. -/
abbrev Quantity := { s : GoString // isQuantity s = true }

/-- `resource.MustParse`; `none`: it panics. -/
def MustParse (s : GoString) : Option Quantity :=
  if h : isQuantity s = true then some ⟨s, h⟩ else none

example : isQuantity "500m" = true ∧ isQuantity "1.5Gi" = true ∧ isQuantity "1e3" = true ∧
    isQuantity "1Gb" = false ∧ isQuantity "." = false := by decide

/-! ### Rendered objects -/

abbrev StringMap := List (GoString × GoString)

structure TypeMeta where
  APIVersion : GoString
  Kind : GoString
deriving DecidableEq

structure OwnerReference where
  APIVersion : GoString
  Kind : GoString
  Name : GoString
  UID : GoString
  controller : Bool
  BlockOwnerDeletion : Bool
deriving DecidableEq

structure ObjectMeta where
  Name : GoString
  Namespace : GoString
  Labels : StringMap
  Annotations : StringMap
  OwnerReferences : List OwnerReference
deriving DecidableEq

structure Probe where
  TCPSocketPort : Int
  InitialDelaySeconds : Int
  PeriodSeconds : Int
  TimeoutSeconds : Int
  FailureThreshold : Int
deriving DecidableEq

structure ResourceList where
  CPU : Quantity
  Memory : Quantity
deriving DecidableEq

structure ResourceRequirements where
  Requests : ResourceList
  Limits : ResourceList
deriving DecidableEq

structure SecurityContext where
  RunAsNonRoot : Bool
  AllowPrivilegeEscalation : Bool
  ReadOnlyRootFilesystem : Bool
  CapabilitiesDrop : List GoString
deriving DecidableEq

structure Container where
  Name : GoString
  Image : GoString
  ContainerPorts : List Int
  Env : List EnvVar
  Resources : ResourceRequirements
  LivenessProbe : Probe
  ReadinessProbe : Probe
  SecurityContext : SecurityContext
deriving DecidableEq

structure Deployment where
  typeMeta : TypeMeta
  objectMeta : ObjectMeta
  Replicas : Int
  Selector : StringMap
  TemplateMeta : ObjectMeta
  PodRunAsNonRoot : Bool
  Containers : List Container
deriving DecidableEq

structure ServicePort where
  Name : GoString
  Port : Int
  TargetPort : Int
  Protocol : GoString
deriving DecidableEq

structure Service where
  typeMeta : TypeMeta
  objectMeta : ObjectMeta
  Selector : StringMap
  ServiceType : GoString
  Ports : List ServicePort
deriving DecidableEq

structure ConfigMap where
  typeMeta : TypeMeta
  objectMeta : ObjectMeta
  Data : StringMap
deriving DecidableEq

/-! ### Rendering -/

def tierDefaults (tier : Int) : ResourceRequests :=
  if tier = 1 then ⟨"1", "1Gi"⟩
  else if tier = 2 then ⟨"500m", "512Mi"⟩
  else if tier = 3 then ⟨"250m", "256Mi"⟩
  else if tier = 4 then ⟨"100m", "128Mi"⟩
  else ⟨"", ""⟩

def effectiveTier (app : Application) : Int :=
  if 1 ≤ app.Spec.Tier ∧ app.Spec.Tier ≤ 4 then app.Spec.Tier else 3

def managedLabels (app : Application) : StringMap :=
  [("app.kubernetes.io/name", app.Name),
    ("app.kubernetes.io/managed-by", "forge"),
    ("forge.dev/application", app.Name),
    ("forge.dev/tier", FormatInt (effectiveTier app))]

def readOnlyRoot (app : Application) : Bool := app.Spec.Security.ReadOnlyRootFilesystem.getD true

def resourceRequirements (app : Application) : Option ResourceRequirements := do
  let defaults := tierDefaults (effectiveTier app)
  let cpu := if app.Spec.Resources.CPU ≠ [] then app.Spec.Resources.CPU else defaults.CPU
  let mem := if app.Spec.Resources.Memory ≠ [] then app.Spec.Resources.Memory else defaults.Memory
  let q : ResourceList := ⟨← MustParse cpu, ← MustParse mem⟩
  return ⟨q, q⟩

def toEnvVars (vars : List EnvVar) : List EnvVar := vars.map fun e => ⟨e.Name, e.Value⟩

def tcpProbe (port initialDelay : Int) : Probe := ⟨port, initialDelay, 10, 2, 3⟩

/-- The number of replicas asked for, 1 if the field is left out. -/
def desiredReplicas (app : Application) : Int := if app.Spec.Replicas = 0 then 1 else app.Spec.Replicas

def selector (app : Application) : StringMap := [("forge.dev/application", app.Name)]

def desiredDeployment (app : Application) : Option Deployment := do
  let resources ← resourceRequirements app
  return {
    typeMeta := ⟨"apps/v1", "Deployment"⟩
    objectMeta := ⟨app.Name, app.Namespace, managedLabels app, [], []⟩
    Replicas := desiredReplicas app
    Selector := selector app
    TemplateMeta := ⟨[], [], managedLabels app,
      [("prometheus.io/scrape", "true"), ("prometheus.io/port", FormatInt app.Spec.Port)], []⟩
    PodRunAsNonRoot := true
    Containers := [{
      Name := "app"
      Image := app.Spec.Image
      ContainerPorts := [app.Spec.Port]
      Env := toEnvVars app.Spec.Env
      Resources := resources
      LivenessProbe := tcpProbe app.Spec.Port 15
      ReadinessProbe := tcpProbe app.Spec.Port 5
      SecurityContext := ⟨true, false, readOnlyRoot app, ["ALL"]⟩ }] }

def desiredService (app : Application) : Service where
  typeMeta := ⟨"v1", "Service"⟩
  objectMeta := ⟨app.Name, app.Namespace, managedLabels app, [], []⟩
  Selector := selector app
  ServiceType := "ClusterIP"
  Ports := [⟨"http", app.Spec.Port, app.Spec.Port, "TCP"⟩]

def lines (ls : List GoString) : GoString := List.intercalate "\n" ls

/-- A panel of the dashboard; its expression is about a metric whose label is the application's name. -/
def panel (title kind before selected after : GoString) (app : Application) : GoString :=
  str "    \x7b\"title\": \"" ++ title ++ str "\", \"type\": \"" ++ kind ++
    str "\", \"targets\": [\x7b\"expr\": \"" ++ before ++ selected ++ str "=\\\"" ++ app.Name ++
    str "\\\"\x7d" ++ after ++ str "\"\x7d]\x7d"

def dashboardJSON (app : Application) : GoString :=
  lines [
    "\x7b",
    str "  \"title\": \"Forge / " ++ app.Name ++ str "\",",
    str "  \"uid\": \"forge-" ++ app.Name ++ str "\",",
    "  \"tags\": [\"forge\", \"managed\"],",
    "  \"panels\": [",
    panel "Request rate" "timeseries" "sum(rate(" "http_requests_total\x7bapp" "[5m]))" app ++ str ",",
    panel "p95 latency" "timeseries" "histogram_quantile(0.95, sum(rate("
      "http_request_duration_seconds_bucket\x7bapp" "[5m])) by (le))" app ++ str ",",
    panel "Ready replicas" "stat" "" "kube_deployment_status_replicas_ready\x7bdeployment" "" app,
    "  ]",
    "\x7d"]

def alertRules (app : Application) : GoString :=
  let name := app.Name
  lines [
    "groups:",
    str "  - name: forge-" ++ name,
    "    rules:",
    "      - alert: HighErrorRate",
    str "        expr: sum(rate(http_requests_total\x7bapp=\"" ++ name ++ str "\",status=~\"5..\"\x7d[5m])) / " ++
      str "sum(rate(http_requests_total\x7bapp=\"" ++ name ++ str "\"\x7d[5m])) > 0.05",
    "        for: 10m",
    "        labels:",
    "          severity: page",
    str "          forge_application: " ++ name,
    "        annotations:",
    str "          summary: \"High 5xx error rate for " ++ name ++ str "\"",
    "      - alert: InsufficientReplicas",
    str "        expr: kube_deployment_status_replicas_ready\x7bdeployment=\"" ++ name ++ str "\"\x7d < " ++
      FormatInt (desiredReplicas app),
    "        for: 15m",
    "        labels:",
    "          severity: page",
    str "          forge_application: " ++ name,
    "        annotations:",
    str "          summary: \"" ++ name ++ str " has fewer ready replicas than desired\"",
    ""]

def desiredObservability (app : Application) : ConfigMap where
  typeMeta := ⟨"v1", "ConfigMap"⟩
  objectMeta := {
    Name := app.Name ++ str "-observability"
    Namespace := app.Namespace
    Labels := [("app.kubernetes.io/managed-by", "forge"), ("forge.dev/application", app.Name),
      ("grafana_dashboard", "1"), ("forge.dev/prometheus-rules", "true")]
    Annotations := []
    OwnerReferences := [] }
  Data := [("dashboard.json", dashboardJSON app), ("alerts.yaml", alertRules app)]

end Forge.Controller

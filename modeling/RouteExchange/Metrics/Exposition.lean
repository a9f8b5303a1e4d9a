/-
  The text in which the samples of a registry are exposed to a scraper.

  Each name with samples has a line of help, a line of its type, and a line for
  each sample.  Names come in alphabetical order; the labels of a sample are in
  alphabetical order too, and the samples in the order of their label values.
-/
import RouteExchange.Metrics
import RouteExchange.Text.Decimal

namespace RouteExchange.Exposition

/-- A name in the exposition: its help, its type, and the names of its labels in
    the order in which samples hold their values. -/
structure Series where
  name : String
  help : String
  type : String
  labels : List String
  samples : Samples

/-- What the registry exposes, by name. -/
def series (r : Registry) : List Series :=
  [⟨"bgp_messages_received_total", "BGP messages received", "counter", ["peer", "type"],
      r.received⟩,
    ⟨"bgp_messages_sent_total", "BGP messages sent", "counter", ["peer", "type"], r.sent⟩,
    ⟨"bgp_routes_received_total", "Routes received from peers", "counter",
      ["peer", "family", "kind"], r.routes⟩,
    ⟨"bgp_rtc_subscription_changes_total", "Subscriptions changed by RTC routes", "counter",
      ["peer", "family", "kind"], r.rtc⟩,
    ⟨"bgp_send_failures_total", "Outbound messages dropped on encode or write failure", "counter",
      ["peer", "stage"], r.failures⟩,
    ⟨"bgp_session_state", "BGP session state (1 if active)", "gauge", ["peer", "state"],
      r.states⟩]

/-- A label value with backslash, quote and line feed escaped. -/
def escape (s : String) : String :=
  String.ofList (s.toList.flatMap fun c =>
    if c = '\\' then ['\\', '\\']
    else if c = '"' then ['\\', '"']
    else if c = '\n' then ['\\', 'n']
    else [c])

/-- The labels of a sample, in alphabetical order of their names. -/
def pairs (names : List String) (s : Sample) : List (String × String) :=
  (names.zip s.labels).mergeSort fun a b => decide (a.1 ≤ b.1)

/-- Lists of texts are in order: the first texts that differ are. -/
def inOrder : List String → List String → Bool
  | [], _ => true
  | _ :: _, [] => false
  | a :: as, b :: bs => if a = b then inOrder as bs else decide (a ≤ b)

/-- A sample comes before another: its label values do. -/
def before (names : List String) (s t : Sample) : Bool :=
  inOrder ((pairs names s).map Prod.snd) ((pairs names t).map Prod.snd)

def line (name : String) (names : List String) (s : Sample) : String :=
  let labels := (pairs names s).map fun (n, v) => n ++ "=\"" ++ escape v ++ "\""
  name ++ "\x7b" ++ String.intercalate "," labels ++ "\x7d " ++ Decimal.text s.value ++ "\n"

/-- The lines of a name; none where there are no samples. -/
def Series.text (s : Series) : String :=
  if s.samples.isEmpty then ""
  else
    "# HELP " ++ s.name ++ " " ++ s.help ++ "\n# TYPE " ++ s.name ++ " " ++ s.type ++ "\n" ++
      String.join ((s.samples.mergeSort (before s.labels)).map (line s.name s.labels))

def text (r : Registry) : String := String.join ((series r).map Series.text)

end RouteExchange.Exposition

import Azrath.ConfigLoading
import Azrath.ErrorTypes

/-!
# The options of `server.rs`

A `Server` keeps the options that were set, by its builder methods or by
`from_config`, and `configure` calls the setter of hyper's `Http` for each of
them. Some setters write the same setting, so the order of the calls counts.
hyper is given from outside, by what its documentation says of the setters.
-/

namespace ServerOptions

open ConfigLoading ErrorTypes PartialRecords

universe u v w
variable {http2 : Bool} {Http : Type u} {L : Type v} {X : Type w} {Err : Type}

/-! ## hyper -/

/-- What a connection may speak. -/
inductive Mode where
  | http1Only
  | http2Only
  | fallback
  deriving DecidableEq

/-- The mode of a builder that requires neither protocol. -/
def Mode.initial (http2 : Bool) : Mode := if http2 then .fallback else .http1Only

/-- What the setters of `Http` write. -/
structure Settings where
  mode : Mode
  keep_alive : Bool
  half_close : Bool
  /-- `none` is `auto`. -/
  writev : Option Bool
  title_case_headers : Bool
  preserve_header_case : Bool
  max_buf_size : Option Nat
  pipeline_flush : Bool
  adaptive_window : Bool
  initial_stream_window_size : UInt32
  initial_connection_window_size : UInt32
  max_frame_size : UInt32
  max_concurrent_streams : Option UInt32
  max_send_buf_size : Nat
  deriving DecidableEq

/-- The documented effect of a setter. `window` is the window size of the HTTP/2
specification, from which an adaptive window starts. -/
def Settings.set (window : UInt32) :
    {http2 : Bool} → (o : HttpOption http2) → o.Value → Settings → Settings
  | _, .http1_keep_alive, val, s => { s with keep_alive := val }
  | _, .http1_half_close, val, s => { s with half_close := val }
  | _, .http1_max_buf_size, val, s => { s with max_buf_size := some val }
  | _, .http1_pipeline_flush, val, s => { s with pipeline_flush := val }
  | _, .http1_writev, val, s => { s with writev := some val }
  | _, .http1_title_case_headers, val, s => { s with title_case_headers := val }
  | _, .http1_preserve_header_case, val, s => { s with preserve_header_case := val }
  | http2, .http1_only, val, s =>
    { s with mode := if val then .http1Only else Mode.initial http2 }
  | _, .http2_only, val, s => { s with mode := if val then .http2Only else .fallback }
  | _, .http2_initial_stream_window_size, val, s =>
    { s with initial_stream_window_size := val, adaptive_window := false }
  | _, .http2_initial_connection_window_size, val, s =>
    { s with initial_connection_window_size := val, adaptive_window := false }
  | _, .http2_adaptive_window, true, s =>
    { s with
      adaptive_window := true
      initial_stream_window_size := window
      initial_connection_window_size := window }
  | _, .http2_adaptive_window, false, s => { s with adaptive_window := false }
  | _, .http2_max_frame_size, val, s => { s with max_frame_size := val }
  | _, .http2_max_concurrent_streams, val, s => { s with max_concurrent_streams := some val }
  | _, .http2_max_send_buf_size, val, s => { s with max_send_buf_size := val }

/-- The values for which a setter does not panic. -/
def accepts (minimum : Nat) : {http2 : Bool} → (o : HttpOption http2) → o.Value → Bool
  | _, .http1_max_buf_size, val => decide (minimum ≤ val)
  | _, .http2_max_send_buf_size, val => decide (val ≤ 4294967295)
  | _, _, _ => true

/-- `Http` of hyper 0.14. An error of a setter is the message of its panic. -/
structure Hyper (http2 : Bool) (Http : Type u) where
  new : Http
  set : (o : HttpOption http2) → o.Value → Http → Except String Http
  settings : Http → Settings
  minimum : Nat
  window : UInt32
  setters : Realises set (fun o val => accepts minimum o val = true) settings (Settings.set window)
  new_mode : (settings new).mode = Mode.initial http2
  new_writev : (settings new).writev = none

/-- The defaults of version 0.14.23. The message of a panic is the name of the option. -/
def hyper014 (http2 : Bool) : Hyper http2 Settings where
  new :=
    { mode := Mode.initial http2
      keep_alive := true
      half_close := false
      writev := none
      title_case_headers := false
      preserve_header_case := false
      max_buf_size := none
      pipeline_flush := false
      adaptive_window := false
      initial_stream_window_size := 1048576
      initial_connection_window_size := 1048576
      max_frame_size := 16384
      max_concurrent_streams := none
      max_send_buf_size := 409600 }
  set o val s := if accepts 8192 o val = true then .ok (s.set 65535 o val) else .error o.name
  settings := id
  minimum := 8192
  window := 65535
  setters :=
    { takes := fun _ _ _ h => ⟨_, if_pos h, rfl⟩
      refuses := fun _ _ _ h => ⟨_, if_neg h⟩ }
  new_mode := rfl
  new_writev := rfl

/-! ## The server -/

/-- `options` are the fields named like the settings of a connection. A `Duration`
is a number of nanoseconds. -/
structure Server (http2 : Bool) (L : Type v) where
  listener : Option L
  options : ∀ o : HttpOption http2, Option o.Value
  worker_keep_alive : Option Nat
  max_workers : Option Nat

namespace Server

/-- The derived `Default`. -/
def default : Server http2 L := ⟨none, fun _ => none, none, none⟩

/-- `listener` is what comes of binding to the address. -/
def bind (debug : IoError X → String) (listener : Except (IoError X) L) :
    Except String (Server http2 L) :=
  match listener with
  | .error err => .error ("failed to bind listener: " ++ debug err)
  | .ok listener => .ok { (default : Server http2 L) with listener := some listener }

def put (self : Server http2 L) (o : HttpOption http2) (val : Option o.Value) :
    Server http2 L :=
  { self with options := Function.update self.options o val }

end Server

/-! The builder methods. -/

namespace Builder

def max_workers (self : Server http2 L) (val : Nat) : Server http2 L :=
  { self with max_workers := some val }

def worker_keep_alive (self : Server http2 L) (val : Nat) : Server http2 L :=
  { self with worker_keep_alive := some val }

def http1_keep_alive (self : Server http2 L) (val : Bool) : Server http2 L :=
  self.put .http1_keep_alive (some val)

def http1_half_close (self : Server http2 L) (val : Bool) : Server http2 L :=
  self.put .http1_half_close (some val)

def http1_max_buf_size (self : Server http2 L) (val : Nat) : Server http2 L :=
  self.put .http1_max_buf_size (some val)

def http1_pipeline_flush (self : Server http2 L) (val : Bool) : Server http2 L :=
  self.put .http1_pipeline_flush (some val)

def http1_writev (self : Server http2 L) (enabled : Bool) : Server http2 L :=
  self.put .http1_writev (some enabled)

def http1_title_case_headers (self : Server http2 L) (val : Bool) : Server http2 L :=
  self.put .http1_title_case_headers (some val)

def http1_preserve_header_case (self : Server http2 L) (val : Bool) : Server http2 L :=
  self.put .http1_preserve_header_case (some val)

def http1_only (self : Server http2 L) (val : Bool) : Server http2 L :=
  self.put .http1_only (some val)

def http2_only (self : Server true L) (val : Bool) : Server true L :=
  self.put .http2_only (some val)

def http2_initial_stream_window_size (self : Server true L) (sz : Option UInt32) :
    Server true L :=
  self.put .http2_initial_stream_window_size sz

def http2_initial_connection_window_size (self : Server true L) (sz : Option UInt32) :
    Server true L :=
  self.put .http2_initial_connection_window_size sz

def http2_adaptive_window (self : Server true L) (enabled : Bool) : Server true L :=
  self.put .http2_adaptive_window (some enabled)

def http2_max_frame_size (self : Server true L) (sz : Option UInt32) : Server true L :=
  self.put .http2_max_frame_size sz

def http2_max_concurrent_streams (self : Server true L) (max : Option UInt32) : Server true L :=
  self.put .http2_max_concurrent_streams max

def http2_max_send_buf_size (self : Server true L) (max : Nat) : Server true L :=
  self.put .http2_max_send_buf_size (some max)

end Builder

/-- The lists that the macro of `configure` goes through. hyper calls the last
two `max_buf_size` and `pipeline_flush`. -/
def configured : (http2 : Bool) → List (HttpOption http2)
  | true => [.http1_keep_alive, .http1_half_close, .http1_writev, .http1_title_case_headers,
      .http1_preserve_header_case, .http1_only, .http2_only, .http2_initial_stream_window_size,
      .http2_initial_connection_window_size, .http2_adaptive_window, .http2_max_frame_size,
      .http2_max_concurrent_streams, .http2_max_send_buf_size, .http1_max_buf_size,
      .http1_pipeline_flush]
  | false => [.http1_keep_alive, .http1_half_close, .http1_writev, .http1_title_case_headers,
      .http1_preserve_header_case, .http1_only, .http1_max_buf_size, .http1_pipeline_flush]

def configure (hyper : Hyper http2 Http) (self : Server http2 L) (http : Http) :
    Except String Http :=
  tryAll hyper.set self.options (configured http2) http

/-- The block of `from_config` that the feature adds. -/
def from_config_http2 : (http2 : Bool) → ServerConfig http2 → Server http2 L → Server http2 L
  | true, config, server =>
    let server := server.put .http2_max_send_buf_size
      (some (config (.option .http2_max_send_buf_size)))
    server.put .http2_only (some (config (.option .http2_only)))
  | false, _, server => server

/-- `Server::from_config`; `new` is what `ServerConfig::new` returns, and `bind`
is the bind of a `TcpListener`. -/
def from_config (boxed : String → X) (display : Err → String)
    (new : Except Err (ServerConfig http2)) (bind : String → Except (IoError X) L) :
    Except (IoError X) (Server http2 L) :=
  match new with
  | .error err => .error ⟨.other, boxed ("Config error: " ++ display err)⟩
  | .ok config =>
    let host : String := config .host
    let port : UInt16 := config .port
    match bind (host ++ ":" ++ toString port) with
    | .error err => .error err
    | .ok listener =>
      .ok (from_config_http2 http2 config
        { listener := some listener
          max_workers := some (config .max_workers)
          worker_keep_alive := some (ServerConfig.worker_keep_alive config)
          options := fun
            | .http1_keep_alive => some (config (.option .http1_keep_alive))
            | .http1_half_close => some (config (.option .http1_half_close))
            | .http1_max_buf_size => some (config (.option .http1_max_buf_size))
            | _ => none })

end ServerOptions

/-
  EgressAuth.Setup.Application

  From settings to a sidecar. The cluster table is checked first, then the
  plugin configuration is read; the service behind the sidecar is checked only
  when the sidecar starts to serve.
-/
import EgressAuth.Setup.Settings
import EgressAuth.Sidecar.Service

namespace EgressAuth.Setup

/-- A sidecar that has been set up. -/
structure Application where
  settings : Settings
  sidecar : Sidecar

namespace Application

/-- Sets up a sidecar; `plugin` is the content of the plugin file if it can be read. -/
def build (settings : Settings) (plugin : Option Bytes) (now : Instant) :
    Except Outbound.InvalidUrl Application :=
  match Outbound.ClusterTable.ofTexts settings.clusters with
  | .error e => .error e
  | .ok clusters =>
    .ok { settings := settings
          sidecar := (Sidecar.start Plugin.Config.default clusters now []).configure plugin }

/-- The service behind the sidecar. -/
def backend (a : Application) : Except Outbound.InvalidUrl Outbound.Backend :=
  match Outbound.TargetUrl.ofText? a.settings.backendUrl with
  | some url => .ok ⟨url, Duration.ofMilliseconds a.settings.backendTimeoutMs⟩
  | none => .error ⟨"upstream", a.settings.backendUrl⟩

end Application
end EgressAuth.Setup

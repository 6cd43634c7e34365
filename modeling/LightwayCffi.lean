import LightwayCffi.Expresslane.Channel
import LightwayCffi.Expresslane.ReferenceWindow
import LightwayCffi.Expresslane.TamperEvidence
import LightwayCffi.Expresslane.Reordering
import LightwayCffi.Expresslane.ClearRange
import LightwayCffi.Expresslane.KeyRotation
import LightwayCffi.Expresslane.KeyHint
import LightwayCffi.Expresslane.SendPipeline
import LightwayCffi.Expresslane.PeerKeys
import LightwayCffi.Client.Lock
import LightwayCffi.Client.Nudge
import LightwayCffi.Client.HostTimer
import LightwayCffi.Client.PollingTimer
import LightwayCffi.Client.Callbacks
import LightwayCffi.Client.Teardown
import LightwayCffi.Client.Config
import LightwayCffi.Client.FatalErrors
import LightwayCffi.Client.Handshake
import LightwayCffi.Expresslane.SharedTraffic
import LightwayCffi.Expresslane.CLedger
import LightwayCffi.Client.Serialised
import LightwayCffi.Client.ConnInfo
import LightwayCffi.Client.IpConfig
import LightwayCffi.Offload.Framing
import LightwayCffi.Offload.KeyDelivery
import LightwayCffi.Bench.Runner

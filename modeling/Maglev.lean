import Maglev.Lib.Memory
import Maglev.Lib.CString
import Maglev.Lib.MessagePack
import Maglev.Lib.Machine
import Maglev.Lib.PartialMachine
import Maglev.Lib.Consumer
import Maglev.Lib.Reach
import Maglev.Lib.Trunc
import Maglev.Lib.Ticks
import Maglev.Lib.DifferenceEquation
import Maglev.Lib.GeometricGrid
import Maglev.Lib.Harmonics
import Maglev.Lib.Ring
import Maglev.Lib.DeltaQueue
import Maglev.Lib.MqttFormat
import Maglev.CWPack.Item
import Maglev.CWPack.ByteOrder
import Maglev.CWPack.Unpack
import Maglev.CWPack.UnpackSpec
import Maglev.CWPack.Advance
import Maglev.CWPack.Truncated
import Maglev.CWPack.Pack
import Maglev.CWPack.PackSpec
import Maglev.Control.Motor
import Maglev.Command.Handler
import Maglev.Command.Pairs
import Maglev.Command.Payload
import Maglev.Command.FlatMap
import Maglev.Command.Cursor
import Maglev.Command.Nested
import Maglev.Command.RoundTrip
import Maglev.Command.DamagedTail
import Maglev.Comms.State
import Maglev.Comms.Topics
import Maglev.Comms.Delivery
import Maglev.Comms.Reception
import Maglev.Comms.Reconnect
import Maglev.Comms.PublishLoop
import Maglev.Comms.Outgoing
import Maglev.Mqtt.Output
import Maglev.Mqtt.OutputSpec
import Maglev.Mqtt.Requests
import Maglev.Mqtt.RequestsSpec
import Maglev.Mqtt.Deadlines
import Maglev.Mqtt.OpenRequests
import Maglev.Mqtt.Client
import Maglev.Mqtt.ByteParser
import Maglev.Mqtt.Segments
import Maglev.Mqtt.Packets
import Maglev.Mqtt.Incoming
import Maglev.Mqtt.ServerStream
import Maglev.Mqtt.Machine
import Maglev.Mqtt.Effects
import Maglev.Mqtt.Sending
import Maglev.Mqtt.Connection
import Maglev.Mqtt.Stream
import Maglev.Comms.Sessions
import Maglev.Comms.Device
import Maglev.Mqtt.RoundTrip
import Maglev.Control.FreqResponse
import Maglev.Control.FreqInterleaving
import Maglev.Control.FreqMeasurement
import Maglev.Control.FreqConfigured
import Maglev.Control.FreqSweep
import Maglev.Control.FreqTone
import Maglev.Control.Biquad
import Maglev.Control.BiquadResponse
import Maglev.Control.Compensator
import Maglev.Control.MotorControl
import Maglev.Control.Tach
import Maglev.Mqtt.Safety
import Maglev.Mqtt.Timeout
import Maglev.Mqtt.Serving
import Maglev.Mqtt.Callbacks
import Maglev.CWPack.PackCalls
import Maglev.CWPack.PackedItems
import Maglev.CWPack.Skip
import Maglev.CWPack.Accepts

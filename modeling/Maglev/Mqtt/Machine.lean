import Maglev.Lib.PartialMachine
import Maglev.Mqtt.Client

namespace Maglev

/-- The calls of the user, of the TCP layer and of the timer, and what the TCP layer is
ready to take from now on. -/
inductive ClientInput
  | connect (info : MqttConnectClientInfo) (attempt : TcpAttempt)
  | publish (topic : CString) (payload : List Byte) (qos retain : Byte) (cb : Option Nat)
  | subUnsub (topic : CString) (qos : Byte) (cb : Option Nat) (sub : Bool)
  | setInpub (pubCb dataCb : Bool)
  | disconnect
  | connected (err : Err)
  | received (p : Option (List Byte)) (err : Err)
  | sent
  | polled
  | failed
  | tick
  | window (sndBuf : Nat) (refusals : List Bool)

def ClientInput.isTick : ClientInput → Bool
  | .tick => true
  | _ => false

/-- The callback that a call gives for the answer to its packet. -/
def ClientInput.cb : ClientInput → Option Nat
  | .publish _ _ _ _ cb | .subUnsub _ _ cb _ => cb
  | _ => none

/-- What the functions return, and the calls of the user's callbacks. -/
inductive ClientOutput
  | connectReturns (err : Err)
  | publishReturns (err : Err)
  | subUnsubReturns (err : Err)
  | disconnectReturns
  | call (call : MqttCall)

/-- The TCP layer has been told to call the callbacks for data. -/
def MqttClient.listens (client : MqttClient) : Bool :=
  client.conn.isSome && (client.connState = .mqttConnecting || client.connState = .mqttConnected)

/-- A callback is only called when it is set up, so the input does nothing otherwise. -/
def whenEnabled (enabled : Bool) (client : MqttClient) (result : MqttResult) :
    Option (MqttClient × List ClientOutput) :=
  if enabled then result.map fun (client, calls) => (client, calls.map .call) else some (client, [])

/-- The client with the calls of its functions one after the other. Its user always gives
a connection callback. -/
def clientMachine : PartialMachine MqttClient ClientInput ClientOutput where
  step client
    | .connect info attempt =>
      (mqttClientConnect client info true attempt).map fun (client, err) => (client, [.connectReturns err])
    | .publish topic payload qos retain cb =>
      (mqttPublish client topic payload qos retain cb).map fun (client, err) => (client, [.publishReturns err])
    | .subUnsub topic qos cb sub =>
      (mqttSubUnsub client topic qos cb sub).map fun (client, err) => (client, [.subUnsubReturns err])
    | .setInpub pubCb dataCb => some (mqttSetInpubCallback client pubCb dataCb, [])
    | .disconnect =>
      (mqttDisconnect client).map fun (client, calls) => (client, calls.map .call ++ [.disconnectReturns])
    | .connected err => whenEnabled (client.connState = .tcpConnecting) client (mqttTcpConnectCb client err)
    | .received p err => whenEnabled client.listens client (mqttTcpRecvCb client p err)
    | .sent => whenEnabled client.listens client (mqttTcpSentCb client)
    | .polled => whenEnabled client.listens client (mqttTcpPollCb client)
    | .failed => whenEnabled client.conn.isSome client (mqttTcpErrCb client)
    | .tick => whenEnabled client.timer client (mqttCyclicTimer client)
    | .window sndBuf refusals =>
      some ({ client with conn := client.conn.map fun pcb => { pcb with sndBuf, refusals } }, [])

end Maglev

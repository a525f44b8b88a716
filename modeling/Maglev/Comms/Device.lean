import Maglev.Command.RoundTrip
import Maglev.Comms.Sessions

namespace Maglev

open MessagePack

end Maglev
